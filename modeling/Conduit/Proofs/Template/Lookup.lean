import Conduit.Proofs.Eval.Paths
import Conduit.Proofs.Template.Rendering

/-!
# A placeholder and the path in it

A template that is one placeholder prints what its path leads to: a string as it
is, any other value as JSON. It is filled from all frames of a scope flattened
to one, while the path alone is followed from the innermost frame that binds its
first name, but both come to the same value or fail for the same reason. Only
the path that a failure shows is written anew, and a value with an integer that
is too long can be read but not printed.
-/

namespace Conduit

namespace Template

open DotPath (closing? closing?_eq)

variable {cs front after : List Char}

/-! ## The ends of a path -/

/-- The last character of a text is no blank. -/
def EndsVisibly (cs : List Char) : Prop := ∃ front c, cs = front ++ [c] ∧ Text.isBlank c = false

theorem EndsVisibly.append (front : List Char) (h : EndsVisibly cs) :
    EndsVisibly (front ++ cs) := by
  obtain ⟨more, c, rfl, hc⟩ := h
  exact ⟨front ++ more, c, (List.append_assoc ..).symm, hc⟩

theorem isBlank_of_isNameChar {c : Char} (h : isNameChar c = true) : Text.isBlank c = false := by
  rw [isNameChar, Bool.or_eq_true, decide_eq_true_eq] at h
  rcases h with hword | rfl
  · by_contra hblank
    have hnot := Text.isWord_of_isBlank (Bool.not_eq_false _ ▸ hblank)
    rw [hword] at hnot
    cases hnot
  · decide

theorem afterName?_eq (h : afterName? cs = some after) :
    ∃ c name, cs = c :: (name ++ after) ∧ ∀ d ∈ c :: name, isNameChar d = true := by
  have hall : ∀ d ∈ cs.takeWhile isNameChar, isNameChar d = true := fun d hd =>
    List.all_eq_true.mp List.all_takeWhile d hd
  have hcs : cs.takeWhile isNameChar ++ cs.drop (cs.takeWhile isNameChar).length = cs :=
    List.prefix_iff_eq_append.mp (List.takeWhile_prefix isNameChar)
  simp only [afterName?] at h
  split at h
  · cases h
  · next hne =>
      cases h
      cases hname : cs.takeWhile isNameChar with
      | nil => simp [hname] at hne
      | cons c name =>
          rw [hname] at hall hcs
          exact ⟨c, name, hcs.symm, hall⟩

/-- A name ends visibly, and so does what follows it if it does at all. -/
theorem endsVisibly_of_afterName? (h : afterName? cs = some after)
    (hafter : after = [] ∨ EndsVisibly after) : EndsVisibly cs := by
  obtain ⟨c, name, rfl, hname⟩ := afterName?_eq h
  rcases hafter with rfl | hends
  · rw [List.append_nil]
    have hne : c :: name ≠ [] := List.cons_ne_nil c name
    refine ⟨(c :: name).dropLast, (c :: name).getLast hne,
      (List.dropLast_append_getLast hne).symm, ?_⟩
    exact isBlank_of_isNameChar (hname _ (List.getLast_mem hne))
  · exact hends.append (c :: name)

theorem afterQuoted?_suffix (h : afterQuoted? cs = some after) : after <:+ cs := by
  unfold afterQuoted? at h
  split at h
  · next q inner =>
      split at h
      · split at h
        · next c rest hrest =>
            cases h
            have hinner : c :: after <:+ inner := hrest ▸ List.dropWhile_suffix _
            exact (List.suffix_cons c after).trans (hinner.trans (List.suffix_cons q inner))
        · cases h
      · cases h
  · cases h

theorem afterIndex?_suffix (h : afterIndex? cs = some after) : after <:+ cs := by
  have hsign : (DotPath.sign cs).2 <:+ cs := ⟨_, (DotPath.sign_eq cs).symm⟩
  unfold afterIndex? at h
  dsimp only at h
  split at h
  · cases h
  · cases h
    exact (List.drop_suffix _ _).trans hsign

theorem afterBracket?_eq (h : afterBracket? cs = some after) :
    ∃ front, cs = front ++ ']' :: after := by
  obtain ⟨rest, hrest, hclose⟩ := Option.bind_eq_some_iff.mp h
  obtain ⟨blanks, rfl, -⟩ := closing?_eq hclose
  have hsuffix : blanks ++ ']' :: after <:+ Text.dropBlanks cs := by
    cases hquoted : afterQuoted? (Text.dropBlanks cs) with
    | some inner =>
        rw [hquoted] at hrest
        cases hrest
        exact afterQuoted?_suffix hquoted
    | none =>
        rw [hquoted] at hrest
        exact afterIndex?_suffix hrest
  obtain ⟨front, hfront⟩ := hsuffix.trans (List.dropWhile_suffix _)
  exact ⟨front ++ blanks, by rw [← hfront, List.append_assoc]⟩

theorem endsVisibly_of_isTail {fuel : Nat} (h : isTail fuel cs = true) :
    cs = [] ∨ EndsVisibly cs := by
  fun_induction isTail fuel cs with
  | case1 => exact .inl rfl
  | case2 => cases h
  | case3 fuel rest after hname ih =>
      exact .inr ((endsVisibly_of_afterName? hname (ih h)).append ['.'])
  | case4 => cases h
  | case5 fuel rest after hbracket ih =>
      obtain ⟨front, rfl⟩ := afterBracket?_eq hbracket
      refine .inr (EndsVisibly.append ('[' :: front) ?_)
      rcases ih h with rfl | hends
      · exact ⟨[], ']', rfl, by decide⟩
      · exact hends.append [']']
  | case6 => cases h
  | case7 => cases h

/-- The path of a placeholder neither begins nor ends with a blank. -/
theorem visible_of_isPathForm (h : isPathForm cs = true) :
    (∃ c rest, cs = c :: rest ∧ Text.isBlank c = false) ∧ EndsVisibly cs := by
  unfold isPathForm at h
  split at h
  · next after hafter =>
      refine ⟨?_, endsVisibly_of_afterName? hafter (endsVisibly_of_isTail h)⟩
      obtain ⟨c, name, rfl, hname⟩ := afterName?_eq hafter
      exact ⟨c, name ++ after, rfl, isBlank_of_isNameChar (hname c List.mem_cons_self)⟩
  · cases h

theorem dropBlanksEnd_append (h : EndsVisibly cs) : Text.dropBlanksEnd (cs ++ [' ']) = cs := by
  obtain ⟨front, c, rfl, hc⟩ := h
  have hspace : Text.isBlank ' ' = true := by decide
  simp [Text.dropBlanksEnd, hspace, hc]

/-! ## One placeholder -/

/-- The template of one placeholder. -/
def placing (path : String) : String := "\x7b\x7b " ++ path ++ " \x7d\x7d"

theorem readBody_spaced {path : String} {p : DotPath} (template : String)
    (hform : isPathForm path.toList = true) (hparse : DotPath.parse path = .ok p) :
    readBody template (' ' :: (path.toList ++ [' '])) = .ok p := by
  obtain ⟨⟨c, rest, hcs, hc⟩, hends⟩ := visible_of_isPathForm hform
  have hspace : Text.isBlank ' ' = true := by decide
  have hfront : Text.dropBlanks (' ' :: (path.toList ++ [' '])) = path.toList ++ [' '] := by
    rw [Text.dropBlanks, List.dropWhile_cons, if_pos hspace, hcs]
    exact Text.dropBlanks_cons hc _
  unfold readBody
  rw [hfront, dropBlanksEnd_append hends]
  dsimp only
  rw [if_pos hform, String.ofList_toList, hparse]

/-- No pair of closing braces has a blank in it. -/
theorem closes_append_space {rest : List Char} :
    Closes (cs ++ ' ' :: rest) ↔ Closes cs ∨ Closes rest := by
  induction cs with
  | nil =>
      rw [List.nil_append, closes_cons]
      simp [not_closes_nil]
  | cons c more ih =>
      rw [List.cons_append, closes_cons, ih, closes_cons]
      cases more with
      | nil => simp [not_closes_nil]
      | cons d more => simp [or_assoc]

/-- Braces do not close before those of the placeholder. -/
theorem untilClose?_placing (hopen : ¬Closes cs) :
    untilClose? (' ' :: (cs ++ ' ' :: ['\x7d', '\x7d'])) = some (' ' :: (cs ++ [' ']), []) := by
  have hbody : ¬Closes (' ' :: (cs ++ [' ']) ++ ['\x7d']) := by
    have hlist : ' ' :: (cs ++ [' ']) ++ ['\x7d'] = [] ++ ' ' :: (cs ++ ' ' :: ['\x7d']) := by simp
    rw [hlist, closes_append_space, closes_append_space, closes_cons]
    simp [not_closes_nil, hopen]
  have hwritten : ' ' :: (cs ++ ' ' :: ['\x7d', '\x7d']) =
      ' ' :: (cs ++ [' ']) ++ '\x7d' :: '\x7d' :: [] := by simp
  cases h : untilClose? (' ' :: (cs ++ ' ' :: ['\x7d', '\x7d'])) with
  | none => exact absurd ⟨' ' :: (cs ++ [' ']), [], by simp⟩ (untilClose?_eq_none h)
  | some p =>
      obtain ⟨body, after⟩ := p
      obtain ⟨heq, hclose⟩ := untilClose?_eq_some h
      obtain ⟨rfl, rfl⟩ := body_unique hclose hbody (heq.symm.trans hwritten)
      rfl

theorem parse_placing {path : String} {p : DotPath} (hform : isPathForm path.toList = true)
    (hopen : ¬Closes path.toList) (hparse : DotPath.parse path = .ok p) :
    parse (placing path) = .ok ⟨placing path, [p], [.slot 0]⟩ := by
  have hlist : (placing path).toList =
      '\x7b' :: '\x7b' :: ' ' :: (path.toList ++ ' ' :: ['\x7d', '\x7d']) := by
    simp [placing]
  have hcut : ∀ fuel, cut (placing path) (fuel + 1) 0 (placing path).toList =
      .ok ([.slot 0], [p]) := by
    intro fuel
    rw [hlist, cut, untilClose?_placing hopen]
    dsimp only
    rw [readBody_spaced _ hform hparse]
    cases fuel <;> rfl
  have hlength : (placing path).toList.length =
      (path.toList.length + 5) + 1 := by
    rw [hlist]
    simp
  rw [parse, hlength, hcut]
  rfl

/-! ## Failures of a path -/

end Template

/-- The same failure, with the path written otherwise. -/
def Failure.withPath (text : String) : Failure → Failure
  | .pathNotFound _ => .pathNotFound text
  | .mismatch (.index _ actual) => .mismatch (.index text actual)
  | f => f

theorem Failure.kind?_withPath (text : String) (f : Failure) :
    (f.withPath text).kind? = f.kind? := by
  unfold withPath
  split <;> rfl

theorem Step.follow_withPath (path text : String) (s : Step) (v : Value) :
    s.follow text v = (s.follow path v).mapError (.withPath text) := by
  cases s with
  | field name =>
      cases v with
      | arr xs =>
          rw [follow, follow]
          split
          · cases Value.positionOf name with
            | error l => rfl
            | ok n =>
                dsimp only
                cases xs[n]? <;> rfl
          · rfl
      | _ =>
          unfold follow
          dsimp only
          generalize Value.field? name _ = found
          cases found <;> rfl
  | index i =>
      cases v with
      | arr xs =>
          rw [follow, follow]
          cases Value.element? xs i <;> rfl
      | _ => rfl

theorem DotPath.follow_withPath (path text : String) (steps : List Step) (v : Value) :
    follow text steps v = (follow path steps v).mapError (.withPath text) := by
  induction steps generalizing v with
  | nil => rfl
  | cons s rest ih =>
      rw [follow, follow, Step.follow_withPath path text]
      cases s.follow path v with
      | error f => rfl
      | ok w => exact ih w

/-- A path in a scope and the same path in all its frames together. -/
theorem Template.resolvePath_toFields {p : DotPath} {text : String} {s : Scope}
    (hs : s.IsDistinct) (htext : DotPath.format p.steps = .ok text) :
    resolvePath s.toFields p = (s.resolve p).mapError (.withPath text) := by
  rw [resolvePath, htext]
  dsimp only
  rw [DotPath.resolve, Scope.resolve, Scope.get?_toFields hs]
  dsimp only
  cases s.get? p.head with
  | none => rfl
  | some v => exact DotPath.follow_withPath p.text text p.rest v

/-! ## What is printed -/

namespace Template

theorem render_slot {engine : Engine} {text : String} {p : DotPath} {fields : Fields Value} :
    render engine ⟨text, [p], [.slot 0]⟩ fields =
      resolvePath fields p >>= fun v => (insertion v).mapError .limit := by
  rw [render]
  cases h : resolvePath fields p with
  | error f => simp [h, bind, Except.bind]
  | ok v =>
      have hvalues : [p].mapM (resolvePath fields) = .ok [v] := mapM_eq_ok_iff.mpr (.cons h .nil)
      have hsources : sources ⟨text, [p], [.slot 0]⟩ = [] := rfl
      rw [hvalues]
      simp only [bind, Except.bind, output, hsources, List.forM_nil, List.mapM_cons,
        List.mapM_nil, pieceText]
      cases hv : insertion v with
      | error l => simp [hv, Except.mapError, pure, Except.pure]
      | ok out => simp [hv, Except.mapError, pure, Except.pure]

/-- What is printed for a value, if it can be: a string as it is, the JSON text
of any other value. -/
theorem insertion_cases (v : Value) :
    (v.HasLongInteger ∧ insertion v = .error .longInteger) ∨
    ¬v.HasLongInteger ∧ ∃ out, insertion v = .ok out ∧
      (v = .str out ∨ v.kind ≠ .string ∧ v.json = .ok out) := by
  cases h : insertion v with
  | error l =>
      obtain ⟨hlong, rfl⟩ := insertion_eq_error_iff.mp h
      exact .inl ⟨hlong, rfl⟩
  | ok out =>
      refine .inr ⟨fun hlong => ?_, out, rfl, ?_⟩
      · rw [insertion_eq_error_iff.mpr ⟨hlong, rfl⟩] at h
        cases h
      · cases v with
        | str s =>
            cases h
            exact .inl rfl
        | _ => exact .inr ⟨nofun, h⟩

end Template

namespace Expr

theorem read_renderString {text : String} {t : Template} (h : Template.parse text = .ok t) :
    read (.obj [("$renderString", .str text)]) = .done (.renderString t none) := by
  rw [read_eq rfl rfl rfl]
  simp [ofArguments, Arguments.required, Arguments.nullable, Arguments.optional, Arguments.find?,
    Arguments.get?, Arguments.single, Arguments.closed, Arguments.present?, Arguments.leftover,
    readTemplate, Reading.string, Reading.andThen, Reading.ofExcept, Reading.under, Functor.map,
    SeqLeft.seqLeft, Seq.seq, Reading.apply, h]

theorem run_renderString {σ : Type} (host : Host σ) (t : Template) (s : Scope) (w : World σ) :
    ((eval host (.renderString t none) s).run.run w).1 =
      ((t.render (host.engine w.outside).1 s.toFields).map .str).mapError .failed := by
  rw [eval, Action.run_bind, Action.run_takeEngine]
  exact Action.run_perform _ _

/-- A placeholder reads what its path reads. The template of one placeholder is
accepted with every path of its form that can be read, and in each scope it
comes to the string that the path leads to, or to the JSON text of any other
value there, unless this holds an integer that is too long to be written; and it
fails where the path fails, for the same reason. -/
theorem renderString_reads {text : String} {path : DotPath}
    (hform : Template.isPathForm text.toList = true) (hopen : ¬Template.Closes text.toList)
    (hparse : DotPath.parse text = .ok path) :
    ∃ (t : Template) (canonical : String),
      read (.obj [("$get", .str text)]) = .done (.get path) ∧
      read (.obj [("$renderString", .str (Template.placing text))]) =
        .done (.renderString t none) ∧
      DotPath.format path.steps = .ok canonical ∧
      ∀ {σ : Type} (host : Host σ) (s : Scope) (w : World σ), s.IsDistinct →
        (∀ v, ((eval host (.get path) s).run.run w).1 = .ok v →
          (v.HasLongInteger → ((eval host (.renderString t none) s).run.run w).1 =
            .error (.failed (.limit .longInteger))) ∧
          (¬v.HasLongInteger → ∃ out,
            ((eval host (.renderString t none) s).run.run w).1 = .ok (.str out) ∧
            (v = .str out ∨ v.kind ≠ .string ∧ v.json = .ok out))) ∧
        ∀ signal, ((eval host (.get path) s).run.run w).1 = .error signal →
          ∃ f, signal = .failed f ∧ (f.withPath canonical).kind? = f.kind? ∧
            ((eval host (.renderString t none) s).run.run w).1 =
              .error (.failed (f.withPath canonical)) := by
  have htemplate := Template.parse_placing hform hopen hparse
  have hformat : DotPath.format path.steps = .ok _ :=
    DotPath.format_eq (DotPath.isShort_of_parse hparse)
  refine ⟨_, _, read_get hparse, read_renderString htemplate, hformat, ?_⟩
  intro σ host s w hs
  rw [run_get, run_renderString, Template.render_slot, Template.resolvePath_toFields hs hformat]
  constructor
  · intro v hv
    have hresolve : s.resolve path = .ok v := by
      cases h : s.resolve path with
      | error f =>
          rw [h] at hv
          cases hv
      | ok u =>
          rw [h] at hv
          cases hv
          rfl
    rw [hresolve]
    rcases Template.insertion_cases v with ⟨hlong, hv⟩ | ⟨hshort, out, hv, hout⟩
    · refine ⟨fun _ => ?_, fun hshort => absurd hlong hshort⟩
      simp [hv, Except.mapError, bind, Except.bind, Except.map]
    · refine ⟨fun hlong => absurd hlong hshort, fun _ => ⟨out, ?_, hout⟩⟩
      simp [hv, Except.mapError, bind, Except.bind, Except.map]
  · intro signal hsignal
    cases h : s.resolve path with
    | ok v =>
        rw [h] at hsignal
        cases hsignal
    | error f =>
        rw [h] at hsignal
        cases hsignal
        exact ⟨f, rfl, Failure.kind?_withPath _ f, rfl⟩

/-- A path with blanks in its bracket, in a scope that hides its first name. -/
def firstTag : DotPath := ⟨"post[ 'tags' ].0", "post", [.field "tags", .field "0"]⟩

def tagged : Scope :=
  (Scope.ofFields [("post", .null)]).child [("post", .obj [("tags", .arr [.bool true])])]

theorem renderString_reads_firstTag :
    Template.isPathForm firstTag.text.toList = true ∧ ¬Template.Closes firstTag.text.toList ∧
      DotPath.parse firstTag.text = .ok firstTag ∧ tagged.IsDistinct ∧
      ((eval .bare (.get firstTag) tagged).run.run { outside := () }).1 = .ok (.bool true) ∧
      ∃ t, read (.obj [("$renderString", .str "\x7b\x7b post[ 'tags' ].0 \x7d\x7d")]) =
          .done (.renderString t none) ∧
        ((eval .bare (.renderString t none) tagged).run.run { outside := () }).1 =
          .ok (.str "true") := by
  have hform : Template.isPathForm firstTag.text.toList = true := by decide +kernel
  have hopen : ¬Template.Closes firstTag.text.toList := Template.untilClose?_eq_none rfl
  have hparse : DotPath.parse firstTag.text = .ok firstTag := by cbv
  have hs : tagged.IsDistinct := by decide
  have hget : ((eval .bare (.get firstTag) tagged).run.run { outside := () }).1 =
    .ok (.bool true) := rfl
  obtain ⟨t, canonical, -, hread, -, hruns⟩ := renderString_reads hform hopen hparse
  obtain ⟨out, hrun, hout⟩ := ((hruns .bare tagged { outside := () } hs).1 _ hget).2
    (by simp [Value.HasLongInteger])
  refine ⟨hform, hopen, hparse, hs, hget, t, hread, ?_⟩
  rcases hout with hstr | ⟨-, hjson⟩
  · cases hstr
  · have htrue : (Value.bool true).json = .ok "true" := by simp [Value.json]
    cases htrue.symm.trans hjson
    exact hrun

/-- A scope with an integer of one digit more than can be written. -/
def overlong : Scope := .ofFields [("a", .int (Nat.pow 10 Limit.numeralDigits))]

/-- A path can lead to an integer that its placeholder cannot print. -/
theorem placeholder_longInteger_fails : ∃ t,
    read (.obj [("$get", .str "a")]) = .done (.get ⟨"a", "a", []⟩) ∧
      read (.obj [("$renderString", .str "\x7b\x7b a \x7d\x7d")]) = .done (.renderString t none) ∧
      ((eval .bare (.get ⟨"a", "a", []⟩) overlong).run.run { outside := () }).1 =
        .ok (.int (Nat.pow 10 Limit.numeralDigits)) ∧
      ((eval .bare (.renderString t none) overlong).run.run { outside := () }).1 =
        .error (.failed (.limit .longInteger)) := by
  have hparse : DotPath.parse "a" = .ok ⟨"a", "a", []⟩ := by cbv
  have htemplate : Template.parse (Template.placing "a") = .ok _ :=
    Template.parse_placing (by decide +kernel) (Template.untilClose?_eq_none rfl) hparse
  have hresolve : Template.resolvePath overlong.toFields ⟨"a", "a", []⟩ =
    .ok (.int (Nat.pow 10 Limit.numeralDigits)) := rfl
  have hlong : ∀ n : Nat, Nat.pow 10 Limit.numeralDigits ≤ n → (Value.int n).HasLongInteger := by
    intro n hn
    rw [Value.int, Value.HasLongInteger, Number.IsLong, Int.natAbs_natCast]
    exact hn
  refine ⟨_, read_get hparse, read_renderString htemplate, rfl, ?_⟩
  rw [run_renderString, Template.render_slot, hresolve]
  simp only [bind, Except.bind]
  rw [Template.insertion_eq_error_iff.mpr ⟨hlong _ (Nat.le_refl _), rfl⟩]
  rfl

end Expr

end Conduit
