import ReportAssembly.Design.Grammar
import ReportAssembly.Design.Printer
import ReportAssembly.Proofs.Lexing

namespace ReportAssembly

def ValueType.token (t : ValueType) : Token :=
  .ofWord t.keyword

def Expression.tokens (e : Expression) : List Token :=
  match e.type with
  | .string => [.expression e.text]
  | type => [.expression e.text, .colon, type.token]

def Element.tokens : Element → List Token
  | text content => [.keyword .text, .string content]
  | field e => .keyword .textField :: e.tokens
  | subreport e => .keyword .subreport :: e.tokens

def Parameter.tokens (p : Parameter) : List Token :=
  [.keyword .parameter, .identifier p.name, .colon, p.type.token]

def Section.tokens (s : Section) : List Token :=
  [.keyword .band, .identifier s.kind.keyword, .braceOpen] ++
    s.elements.flatMap (fun e => e.value.tokens) ++ [.braceClose]

def Design.tokens (d : Design) : List Token :=
  [.keyword .report, .string d.name, .braceOpen] ++
    d.parameters.flatMap (fun p => p.value.tokens) ++ d.sections.flatMap Section.tokens ++
    [.braceClose]

def Element.expression? : Element → Option Expression
  | text _ => none
  | field e => some e
  | subreport e => some e

def Element.Spellable (e : Element) : Prop :=
  ∀ x ∈ e.expression?, '`' ∉ x.text.toList

def Section.Spellable (s : Section) : Prop :=
  ∀ e ∈ s.elements, e.value.Spellable

structure Design.Spellable (d : Design) : Prop where
  parameters : ∀ p ∈ d.parameters, isIdentifier p.value.name = true
  sections : ∀ s ∈ d.sections, s.Spellable

theorem Spells.append_space {cs ds : List Char} {ts us : List Token} (h : Spells cs ts)
    (h' : Spells ds us) : Spells (cs ++ ' ' :: ds) (ts ++ us) :=
  h.append_spacing (by decide) h'

theorem spells_keyword (k : Keyword) : Spells k.word.toList [.keyword k] := by
  have h : Token.ofWord k.word = .keyword k := by rw [Token.ofWord, Keyword.ofWord?_word]
  cases k <;> exact h ▸ spells_word (by decide) (List.all_eq_true.mp (by decide))

theorem ValueType.spells_keyword (t : ValueType) : Spells t.keyword.toList [t.token] := by
  cases t <;> exact spells_word (by decide) (List.all_eq_true.mp (by decide))

theorem SectionKind.isIdentifier_keyword (k : SectionKind) : isIdentifier k.keyword = true := by
  cases k <;> decide

theorem spells_quote (s : String) : Spells (quote s).toList [.string s] := by
  have hquote : (quote s).toList = '"' :: (Text.Quoted.encode s.toList ++ ['"']) := by
    simp [quote]
  have hspells := spells_string s.toList
  rwa [String.ofList_toList, ← hquote] at hspells

/-- A printed expression spells its tokens, unless a backtick is in it. -/
theorem Expression.spells_print {e : Expression} (h : '`' ∉ e.text.toList) :
    Spells e.print.toList e.tokens := by
  have htext : Spells ('`' :: (e.text.toList ++ ['`'])) [.expression e.text] := by
    have hspells := spells_expression h
    rwa [String.ofList_toList] at hspells
  have htyped : Spells ('`' :: (e.text.toList ++ ['`']) ++ ':' :: ' ' :: e.type.keyword.toList)
      [.expression e.text, .colon, e.type.token] :=
    htext.append (spells_colon.append_space e.type.spells_keyword)
      fun _ hc => Option.some.inj hc ▸ (by decide)
  obtain ⟨text, type⟩ := e
  cases type with
  | string => simpa [print, tokens] using htext
  | _ => simpa [print, tokens] using htyped

theorem Element.spells_print {e : Element} (h : e.Spellable) : Spells e.print.toList e.tokens := by
  cases e with
  | text content =>
    have hline := (spells_keyword .text).append_space
      (spells_quote content)
    simpa [print, tokens, Keyword.word] using hline
  | field x =>
    have hline := (spells_keyword .textField).append_space
      (Expression.spells_print (h x rfl))
    simpa [print, tokens, Keyword.word] using hline
  | subreport x =>
    have hline := (spells_keyword .subreport).append_space
      (Expression.spells_print (h x rfl))
    simpa [print, tokens, Keyword.word] using hline

theorem Parameter.spells_print {p : Parameter} (h : isIdentifier p.name = true) :
    Spells p.print.toList p.tokens := by
  have htype : Spells (':' :: ' ' :: p.type.keyword.toList) [.colon, p.type.token] :=
    spells_colon.append_space p.type.spells_keyword
  have hdeclared := (spells_identifier h).append htype
    fun _ hc => Option.some.inj hc ▸ (by decide)
  have hline := (spells_keyword .parameter).append_space hdeclared
  simpa [print, tokens, Keyword.word] using hline

inductive LinesSpell : List String → List Token → Prop
  | nil : LinesSpell [] []
  | cons {line : String} {lines : List String} {ts us : List Token}
      (first : Spells line.toList ts) (rest : LinesSpell lines us) :
      LinesSpell (line :: lines) (ts ++ us)

theorem LinesSpell.append {lines lines' : List String} {ts us : List Token}
    (h : LinesSpell lines ts) (h' : LinesSpell lines' us) :
    LinesSpell (lines ++ lines') (ts ++ us) := by
  induction h with
  | nil => exact h'
  | cons first _ ih =>
    rw [List.append_assoc]
    exact .cons first ih

theorem LinesSpell.single {line : String} {ts : List Token} (h : Spells line.toList ts) :
    LinesSpell [line] ts := by
  simpa using cons h nil

theorem LinesSpell.flatMap {α : Type} {xs : List α} {f : α → List String} {g : α → List Token}
    (h : ∀ x ∈ xs, LinesSpell (f x) (g x)) : LinesSpell (xs.flatMap f) (xs.flatMap g) := by
  induction xs with
  | nil => exact nil
  | cons x xs ih =>
    obtain ⟨hx, hxs⟩ := List.forall_mem_cons.mp h
    exact hx.append (ih hxs)

/-- Lines keep their readings when they are put one below the other. -/
theorem LinesSpell.spells_intercalate {lines : List String} {ts : List Token}
    (h : LinesSpell lines ts) : Spells (String.intercalate "\n" lines).toList ts := by
  rw [String.toList_intercalate]
  induction h with
  | nil => exact spells_nil
  | @cons line lines ts us first rest ih =>
    cases rest with
    | nil => simpa using first
    | @cons line' lines' ts' us' first' rest' =>
      have hlines : List.intercalate "\n".toList ((line :: line' :: lines').map String.toList) =
          line.toList ++ '\n' :: List.intercalate "\n".toList
            ((line' :: lines').map String.toList) := by
        simp [List.intercalate_cons_cons]
      rw [hlines]
      exact first.append_spacing (by decide) ih

theorem spells_indented (n : Nat) {cs : List Char} {ts : List Token} (h : Spells cs ts) :
    Spells (List.replicate n ' ' ++ cs) ts := by
  induction n with
  | zero => exact h
  | succ n ih => exact ih.spacing_cons (by decide)

theorem Section.lines_spell {s : Section} (h : s.Spellable) : LinesSpell s.lines s.tokens := by
  obtain ⟨kind, elements⟩ := s
  have hopen := spells_indented 4 (((spells_keyword .band).append_space
    (spells_identifier kind.isIdentifier_keyword)).append_space
    spells_brace_open)
  cases elements with
  | nil =>
    have hline := hopen.append_space spells_brace_close
    apply LinesSpell.single
    simpa [tokens, Keyword.word] using hline
  | cons e es =>
    have hfirst : LinesSpell ["    section " ++ kind.keyword ++ " \x7b"]
        [.keyword .band, .identifier kind.keyword, .braceOpen] := by
      apply LinesSpell.single
      simpa [Keyword.word] using hopen
    have hlast : LinesSpell ["    \x7d"] [.braceClose] := by
      apply LinesSpell.single
      simpa using spells_indented 4 spells_brace_close
    have helements : LinesSpell ((e :: es).flatMap fun e => ["        " ++ e.value.print])
        ((e :: es).flatMap fun e => e.value.tokens) := by
      apply LinesSpell.flatMap
      intro x hx
      apply LinesSpell.single
      simpa using spells_indented 8 (Element.spells_print (h x hx))
    rw [← List.map_eq_flatMap] at helements
    exact (hfirst.append helements).append hlast

/-- The lines of a design spell its tokens. -/
theorem Design.lines_spell {d : Design} (h : d.Spellable) : LinesSpell d.lines d.tokens := by
  have hfirst : LinesSpell ["report " ++ quote d.name ++ " \x7b"]
      [.keyword .report, .string d.name, .braceOpen] := by
    apply LinesSpell.single
    have hline := ((spells_keyword .report).append_space
      (spells_quote d.name)).append_space spells_brace_open
    simpa [Keyword.word] using hline
  have hlast : LinesSpell ["\x7d"] [.braceClose] := by
    apply LinesSpell.single
    simpa using spells_brace_close
  have hparameters : LinesSpell (d.parameters.flatMap fun p => ["    " ++ p.value.print])
      (d.parameters.flatMap fun p => p.value.tokens) := by
    apply LinesSpell.flatMap
    intro p hp
    apply LinesSpell.single
    simpa using spells_indented 4 (Parameter.spells_print (h.parameters p hp))
  have hsections : LinesSpell (d.sections.flatMap Section.lines)
      (d.sections.flatMap Section.tokens) :=
    LinesSpell.flatMap fun s hs => s.lines_spell (h.sections s hs)
  rw [← List.map_eq_flatMap] at hparameters
  exact ((hfirst.append hparameters).append hsections).append hlast

/-- The source of a design reads as its tokens. -/
theorem Design.reads_print {d : Design} (h : d.Spellable) : Reads d.print.toList d.tokens :=
  (d.lines_spell h).spells_intercalate.reads

end ReportAssembly
