import Conduit.Proofs.Template.Escapes
import Conduit.Proofs.Template.Literal
import Mathlib.Algebra.Order.BigOperators.Group.List
import Mathlib.Algebra.Order.Group.Nat

/-!
# What rendering makes of a template

Once its placeholders have values with texts, a template is rendered exactly if
the engine carries out its tags, and into what its pieces print then. A template
that is literal has no tags: its parts print the same whatever a tag prints. So
it is rendered by every engine, into its characters with those texts in the
place of its placeholders. Any other template loses or changes characters, and
can make up for them only where more is printed than is written.
-/

namespace Conduit.Template

variable {texts : List String} {values : List Value} {paths : List DotPath}
  {fields : Fields Value} {engine : Engine} {t : Template}

/-! ## Pieces -/

/-- What an engine puts into a text for a tag. -/
def printedBy (engine : Engine) (paths : List DotPath) (fields : Fields Value)
    (source : TagSource) : List Char :=
  match (engine.print source paths fields).mapM printedText with
  | .ok texts => (String.join texts).toList
  | .error _ => []

/-- An engine carries out a tag: the tag can be compiled, and each expression in
it comes to something that is printed. -/
structure CarriesOut (engine : Engine) (paths : List DotPath) (fields : Fields Value)
    (source : TagSource) : Prop where
  compiled : engine.compile source = .ok ()
  printed : ∃ texts, (engine.print source paths fields).mapM printedText = .ok texts

theorem insertion_slot (h : List.Forall₂ (fun v s => insertion v = .ok s) values texts) (n : Nat) :
    insertion (values[n]?.getD .null) = .ok (slotText texts n) := by
  induction h generalizing n with
  | nil => rfl
  | cons hv _ ih =>
      cases n with
      | zero => exact hv
      | succ n => exact ih n

theorem pieceText_eq_ok_iff (h : List.Forall₂ (fun v s => insertion v = .ok s) values texts)
    {piece : Piece} {out : String} :
    pieceText engine paths fields values piece = .ok out ↔
      (∀ source, piece = .print source →
        ∃ texts, (engine.print source paths fields).mapM printedText = .ok texts) ∧
      out = String.ofList (pieceChars texts (printedBy engine paths fields) piece) := by
  cases piece with
  | text cs => simp [pieceText, pieceChars, eq_comm]
  | slot n => simp [pieceText, insertion_slot h n, pieceChars, Except.mapError, eq_comm]
  | print source =>
      rw [pieceText, bind_eq_ok_iff, pieceChars, printedBy]
      cases hprint : (engine.print source paths fields).mapM printedText with
      | error f => simp [hprint]
      | ok outs =>
          dsimp only
          rw [String.ofList_toList]
          simp [hprint, eq_comm]

theorem mapM_pieceText_eq_ok_iff (h : List.Forall₂ (fun v s => insertion v = .ok s) values texts)
    {pieces : List Piece} {outs : List String} :
    pieces.mapM (pieceText engine paths fields values) = .ok outs ↔
      (∀ source, .print source ∈ pieces →
        ∃ texts, (engine.print source paths fields).mapM printedText = .ok texts) ∧
      outs = pieces.map fun piece =>
        String.ofList (pieceChars texts (printedBy engine paths fields) piece) := by
  simp only [mapM_eq_ok_iff, pieceText_eq_ok_iff h]
  rw [List.forall₂_and_left]
  refine and_congr ?_ ?_
  · exact ⟨fun hprint source hmem => hprint _ hmem source rfl,
      fun hprint piece hmem source heq => hprint source (heq ▸ hmem)⟩
  · rw [← List.forall₂_map_left_iff (R := fun a b => b = a), eq_comm]
    simp only [eq_comm (b := _), List.forall₂_eq_eq_eq]

theorem join_map {pieces : List Piece} {chars : Piece → List Char} :
    String.join (pieces.map fun piece => String.ofList (chars piece)) =
      String.ofList (pieces.flatMap chars) := by
  refine String.toList_inj.mp ?_
  simp [List.flatMap_map]

theorem output_eq_ok_iff (h : List.Forall₂ (fun v s => insertion v = .ok s) values texts)
    {out : String} :
    t.output engine fields values = .ok out ↔
      (∀ source ∈ t.sources, CarriesOut engine t.paths fields source) ∧
      out = String.ofList
        (t.pieces.flatMap (pieceChars texts (printedBy engine t.paths fields))) := by
  rw [output, bind_eq_ok_iff]
  simp only [bind_eq_ok_iff, mapM_pieceText_eq_ok_iff h, mapError_eq_ok_iff, forM_eq_ok_iff,
    Except.ok.injEq]
  constructor
  · rintro ⟨-, hcompile, outs, ⟨hprint, rfl⟩, rfl⟩
    exact ⟨fun source hmem => ⟨hcompile source hmem, hprint source (mem_sources.mp hmem)⟩, join_map⟩
  · rintro ⟨hcarries, rfl⟩
    refine ⟨(), fun source hmem => (hcarries source hmem).compiled, _, ⟨?_, rfl⟩, join_map⟩
    exact fun source hmem => (hcarries source (mem_sources.mpr hmem)).printed

/-- A template is rendered if the engine carries out all its tags, and into what
its pieces print. -/
theorem render_eq_ok_iff
    (hvalues : List.Forall₂ (fun p v => resolvePath fields p = .ok v) t.paths values)
    (htexts : List.Forall₂ (fun v s => insertion v = .ok s) values texts) {out : String} :
    t.render engine fields = .ok out ↔
      (∀ source ∈ t.sources, CarriesOut engine t.paths fields source) ∧
      out = String.ofList
        (t.pieces.flatMap (pieceChars texts (printedBy engine t.paths fields))) := by
  rw [render, mapM_eq_ok_iff.mpr hvalues]
  exact output_eq_ok_iff htexts

/-- Pieces that print the same whatever tags print have no tags. -/
theorem sources_eq_nil {out : List Char}
    (h : ∀ printed, t.pieces.flatMap (pieceChars texts printed) = out) : t.sources = [] := by
  refine List.eq_nil_iff_forall_not_mem.mpr fun source hmem => ?_
  -- where all tags print a space, the text is longer than where they print nothing
  have hlt : (t.pieces.flatMap (pieceChars texts fun _ => [])).length <
      (t.pieces.flatMap (pieceChars texts fun _ => [' '])).length := by
    rw [List.length_flatMap, List.length_flatMap]
    refine List.sum_lt_sum _ _ (fun piece _ => ?_) ⟨_, mem_sources.mp hmem, Nat.zero_lt_one⟩
    cases piece with
    | text cs => exact Nat.le_refl _
    | slot n => exact Nat.le_refl _
    | print other => exact Nat.zero_le _
  rw [h, h] at hlt
  exact Nat.lt_irrefl _ hlt

/-! ## Templates that can be read -/

theorem print_mem_of_tag_mem {ps : List Part} {pieces : List Piece} {words : List Word}
    {source : TagSource} (h : piecesOf? ps = some pieces) (hmem : .tag words source ∈ ps) :
    .print source ∈ pieces := by
  induction ps generalizing pieces with
  | nil => cases hmem
  | cons p rest ih =>
      rw [piecesOf?.eq_def] at h
      cases p with
      | tag words' source' =>
          dsimp only at h
          split at h
          · obtain ⟨more, hmore, rfl⟩ := Option.map_eq_some_iff.mp h
            rcases List.mem_cons.mp hmem with heq | hrest
            · cases heq
              exact List.mem_cons_self
            · exact List.mem_cons_of_mem _ (ih hmore hrest)
          · cases h
      | piece p =>
          obtain ⟨more, hmore, rfl⟩ := Option.map_eq_some_iff.mp h
          rcases List.mem_cons.mp hmem with heq | hrest
          · cases heq
          · exact List.mem_cons_of_mem _ (ih hmore hrest)

/-- A template that can be read is cut and divided into parts, whose tags all
print. -/
theorem parse_eq_ok {text : String} {t : Template} (h : parse text = .ok t) :
    ∃ ms ps, cut text text.toList.length 0 text.toList = .ok (ms, t.paths) ∧
      parts (joinLines ms).length [] (joinLines ms) = some ps ∧ piecesOf? ps = some t.pieces := by
  unfold parse at h
  obtain ⟨⟨ms, paths⟩, hcut, h⟩ := ok_of_bind h
  dsimp only at h
  split at h
  · cases h
  · next ps hps =>
      split at h
      · cases h
      · next pieces hlong hpieces =>
          cases h
          exact ⟨ms, ps, hcut, hps, hpieces⟩
      · split at h <;> cases h

theorem parse_of_readBody {text : String} {body : List Char} {p : DotPath}
    (h : readBody text body = .ok p) : DotPath.parse (Text.trim (String.ofList body)) = .ok p := by
  rw [Text.trim, String.toList_ofList]
  unfold readBody at h
  dsimp only at h
  split at h
  · split at h
    · next q hq =>
        cases h
        exact hq
    · cases h
    · cases h
  · cases h

/-- A template consists of characters and placeholders, cut from its text in
the one possible way. If it has no line ends other than line feeds and in it
opens no comment and no tag, every engine renders it into its characters, with
what its paths lead to in the place of its placeholders. Else it is rendered
exactly if the engine carries out its tags, into what its pieces print; and this
is not that text, at least if no inserted text is so short that it could make up
for what a raw text shows, and no tag prints more than is written in it. -/
theorem render_exact {text : String} {t : Template} (h : parse text = .ok t) :
    ∃ chunks, IsCut chunks ∧ text.toList = written chunks ∧
      (∀ others, IsCut others → text.toList = written others → others = chunks) ∧
      List.Forall₂ (fun body p => DotPath.parse (Text.trim (String.ofList body)) = .ok p)
        (bodies chunks) t.paths ∧
      ∀ (engine : Engine) (fields : Fields Value) (values : List Value) (texts : List String),
        List.Forall₂ (fun p v => resolvePath fields p = .ok v) t.paths values →
        List.Forall₂ (fun v s => insertion v = .ok s) values texts →
          (IsLiteral chunks → t.render engine fields = .ok (String.ofList (fill texts chunks))) ∧
          (∀ out, t.render engine fields = .ok out ↔
            (∀ source ∈ t.sources, CarriesOut engine t.paths fields source) ∧
            out = String.ofList
              (t.pieces.flatMap (pieceChars texts (printedBy engine t.paths fields)))) ∧
          (¬IsLiteral chunks → HasRoom texts →
            (∀ source ∈ t.sources,
              (printedBy engine t.paths fields source).length ≤ source.chars.length) →
            t.render engine fields ≠ .ok (String.ofList (fill texts chunks))) := by
  obtain ⟨ms, ps, hcut, hparts, hpieces⟩ := parse_eq_ok h
  obtain ⟨chunks, hchunks, hwritten, rfl, hpaths⟩ := cut_chunks (Nat.le_refl _) hcut
  refine ⟨chunks, hchunks, hwritten.symm, ?_, hpaths.imp fun _ _ => parse_of_readBody, ?_⟩
  · exact fun others hothers heq => hothers.unique hchunks (heq.symm.trans hwritten.symm)
  intro engine fields values texts hvalues htexts
  have hlength : (bodies chunks).length = texts.length := by
    rw [hpaths.length_eq, hvalues.length_eq, htexts.length_eq]
  have hfill : fill texts chunks = (marks 0 chunks).flatMap (markChars texts) := by
    rw [← fill_eq (by omega), List.drop_zero]
  have hprints : ∀ printed, Prints texts printed [] (joinLines (marks 0 chunks)) ps :=
    fun printed => parts_prints (Nat.le_refl _) (by simp) hparts
  have hrender : ∀ out, t.render engine fields = .ok out ↔ _ :=
    fun out => render_eq_ok_iff hvalues htexts
  refine ⟨fun hliteral => ?_, hrender, fun hliteral hroom hfits heq => ?_⟩
  · have hexact : ∀ printed, t.pieces.flatMap (pieceChars texts printed) = fill texts chunks := by
      intro printed
      rw [← piecesOf?_chars hpieces, hfill, hliteral.prints (hprints printed)]
    refine (hrender _).mpr ⟨fun source hmem => ?_, by rw [hexact]⟩
    rw [sources_eq_nil hexact] at hmem
    cases hmem
  · have hchars := String.ofList_inj.mp ((hrender _).mp heq).2
    rw [← piecesOf?_chars hpieces, hfill] at hchars
    have htags : FitsTags (printedBy engine t.paths fields) ps := fun words source hmem =>
      hfits source (mem_sources.mpr (print_mem_of_tag_mem hpieces hmem))
    exact prints_ne_of_not_literal hliteral (hroom.isRoomy hlength) htags (hprints _) hchars.symm

/-- A template that is literal: a percent sign before a brace opens nothing. -/
def greetingText : String := "Dear \x7b\x7b user.name \x7d\x7d,\n100%\x7d"

def greeting : Template :=
  ⟨greetingText, [⟨"user.name", "user", [.field "name"]⟩],
    [.text "Dear ".toList, .slot 0, .text ",\n100%\x7d".toList]⟩

theorem render_exact_greeting : parse greetingText = .ok greeting ∧
    ∃ chunks, IsCut chunks ∧ greetingText.toList = written chunks ∧ ∀ engine : Engine,
      greeting.render engine [("user", .obj [("name", .str "\x7b\x7bn\x7d\x7d")])] =
        .ok "Dear \x7b\x7bn\x7d\x7d,\n100%\x7d" ∧
      (IsLiteral chunks → fill ["\x7b\x7bn\x7d\x7d"] chunks =
        "Dear \x7b\x7bn\x7d\x7d,\n100%\x7d".toList) := by
  have hparse : parse greetingText = .ok greeting := by decide +kernel
  obtain ⟨chunks, hcut, hwritten, -, -, hrender⟩ := render_exact hparse
  refine ⟨hparse, chunks, hcut, hwritten, fun engine => ?_⟩
  obtain ⟨hliteral, hout, -⟩ := hrender engine
    [("user", .obj [("name", .str "\x7b\x7bn\x7d\x7d")])] [.str "\x7b\x7bn\x7d\x7d"]
    ["\x7b\x7bn\x7d\x7d"] (.cons rfl .nil) (.cons rfl .nil)
  have hgreets := (hout "Dear \x7b\x7bn\x7d\x7d,\n100%\x7d").mpr ⟨nofun, rfl⟩
  refine ⟨hgreets, fun h => ?_⟩
  rw [hliteral h, Except.ok.injEq] at hgreets
  rw [← hgreets, String.toList_ofList]

/-- A placeholder in a raw text. -/
def rawText : String := "\x7b% raw %\x7d\x7b\x7b a \x7d\x7d\x7b% endraw %\x7d"

def rawTemplate : Template :=
  ⟨rawText, [⟨"a", "a", []⟩], [.text "\x7b\x7b _v[0] \x7d\x7d".toList]⟩

/-- A tag that prints. -/
def productText : String := "\x7b% print 7*7 %\x7d"

def productTemplate : Template := ⟨productText, [], [.print ⟨" print 7*7 %\x7d".toList, 0⟩]⟩

/-- A raw text shows a slot where its placeholder was, and loses its marks; a
comment is lost, and so is a carriage return; and a tag is carried out by an
engine that can multiply. -/
theorem render_changes_characters :
    (parse rawText = .ok rawTemplate ∧ ∀ engine,
        rawTemplate.render engine [("a", .str "x")] = .ok "\x7b\x7b _v[0] \x7d\x7d" ∧
        rawTemplate.render engine [("a", .str "x")] ≠ .ok "\x7b% raw %\x7dx\x7b% endraw %\x7d") ∧
      (∃ t, parse "a\x7b# b #\x7d" = .ok t ∧ ∀ engine, t.render engine [] = .ok "a") ∧
      (∃ t, parse "a\r\nb" = .ok t ∧ ∀ engine, t.render engine [] = .ok "a\nb") ∧
      parse productText = .ok productTemplate ∧
        productTemplate.render ⟨fun _ => .ok (), fun _ _ _ => [.ok (.value (.int 49))]⟩ [] =
          .ok "49" := by
  have hraw : ∀ engine, rawTemplate.render engine [("a", .str "x")] =
    .ok "\x7b\x7b _v[0] \x7d\x7d" := fun _ => rfl
  refine ⟨⟨by decide +kernel, fun engine => ⟨hraw engine, ?_⟩⟩, ?_, ?_, by decide +kernel,
    by decide +kernel⟩
  · rw [hraw]
    intro heq
    exact absurd (Except.ok.inj heq) (by decide)
  · exact ⟨⟨"a\x7b# b #\x7d", [], [.text ['a']]⟩, by decide +kernel, fun _ => rfl⟩
  · exact ⟨⟨"a\r\nb", [], [.text ['a', '\n', 'b']]⟩, by decide +kernel, fun _ => rfl⟩

end Conduit.Template
