import ReportAssembly.Proofs.Descents
import ReportAssembly.Proofs.Lexing
import ReportAssembly.Proofs.PackageOrder

namespace ReportAssembly

def IsLetter (c : Char) : Prop :=
  'a' ≤ c ∧ c ≤ 'z' ∨ 'A' ≤ c ∧ c ≤ 'Z'

def IsWord (n : String) : Prop :=
  ∃ c cs, n.toList = c :: cs ∧ (IsLetter c ∨ c = '_') ∧
    ∀ d ∈ cs, IsLetter d ∨ '0' ≤ d ∧ d ≤ '9' ∨ d = '_'

def Keyword.words : List String :=
  ["report", "parameter", "section", "text", "textfield", "subreport"]

theorem isWordStart_iff (c : Char) : isWordStart c = true ↔ IsLetter c ∨ c = '_' := by
  simp [isWordStart, IsLetter, Char.isAlpha, Char.isUpper, Char.isLower, Char.le_def, or_comm]

theorem isWordPart_iff_isLetter (c : Char) :
    isWordPart c = true ↔ IsLetter c ∨ '0' ≤ c ∧ c ≤ '9' ∨ c = '_' := by
  have hdigit : c.isDigit = true ↔ '0' ≤ c ∧ c ≤ '9' := by simp [Char.isDigit, Char.le_def]
  have hstart := isWordStart_iff c
  rw [isWordStart, Bool.or_eq_true, beq_iff_eq] at hstart
  rw [isWordPart, Char.isAlphanum, Bool.or_eq_true, Bool.or_eq_true, beq_iff_eq, hdigit,
    or_right_comm, hstart, or_assoc, or_comm (b := _ ∧ _)]

/-- A text is no keyword exactly if it is none of the words. -/
theorem Keyword.ofWord?_eq_none_iff (w : String) : ofWord? w = none ↔ w ∉ words := by
  have hwords : words = all.map word := rfl
  rw [ofWord?, List.find?_eq_none, hwords, List.mem_map]
  simp only [beq_iff_eq, not_exists, not_and]

/-- An identifier is a word that is no keyword. -/
theorem isIdentifier_iff_isWord (n : String) :
    isIdentifier n = true ↔ IsWord n ∧ n ∉ Keyword.words := by
  rw [← Keyword.ofWord?_eq_none_iff, isIdentifier, IsWord]
  cases n.toList with
  | nil => simp
  | cons c cs =>
    simp [isWordStart_iff, isWordPart_iff_isLetter]

/-- An identifier is a text that the lexer reads as itself and nothing else. -/
theorem isIdentifier_iff_tokens? (n : String) :
    isIdentifier n = true ↔ tokens? n = some [.identifier n] := by
  rw [tokens?_eq_some_iff]
  constructor
  · exact fun h => (spells_identifier h).reads
  · exact fun h => h.lexical _ List.mem_cons_self

/-- White space, a double quote, white space, the name, white space, a double quote, white space.
The name is a word that is no keyword. -/
def Denotes (expression name : String) : Prop :=
  ∃ as bs cs ds : List Char,
    Text.Blanks as ∧ Text.Blanks bs ∧ Text.Blanks cs ∧ Text.Blanks ds ∧
    expression.toList = as ++ '"' :: (bs ++ name.toList ++ cs) ++ '"' :: ds ∧
    IsWord name ∧ name ∉ Keyword.words

/-- The two descriptions of a reference are one. -/
theorem quotes_iff_denotes (expression n : String) :
    Quotes expression n ↔ Denotes expression n := by
  simp only [Quotes, Denotes, isIdentifier_iff_isWord]

theorem Text.Blanks.not_isWordPart {cs : List Char} (h : Blanks cs) :
    ∀ c ∈ cs, isWordPart c = false := by
  intro c hc
  by_contra hpart
  have hblank := isBlank_eq_false_of_isWordPart (Bool.eq_true_of_not_eq_false hpart)
  exact Bool.false_ne_true (hblank.symm.trans (h c hc))

theorem Text.Blanks.count_quote {cs : List Char} (h : Blanks cs) : cs.count '"' = 0 :=
  List.count_eq_zero.mpr fun hmem => absurd (h _ hmem) (by decide)

namespace Denotes

variable {expression n : String}

/-- A reference denotes an identifier. -/
theorem isIdentifier (h : Denotes expression n) : isIdentifier n = true :=
  ((quotes_iff_denotes expression n).mpr h).isIdentifier

theorem isWordPart_name (h : Denotes expression n) : ∀ c ∈ n.toList, isWordPart c = true :=
  isWordPart_of_isIdentifier h.isIdentifier

/-- The name is the only word of the expression. -/
theorem exists_around (h : Denotes expression n) : ∃ before after : List Char,
    expression.toList = before ++ n.toList ++ after ∧
      (∀ c ∈ before, isWordPart c = false) ∧ ∀ c ∈ after, isWordPart c = false := by
  obtain ⟨as, bs, cs, ds, has, hbs, hcs, hds, he, -⟩ := h
  have hquote : isWordPart '"' = false := by decide
  refine ⟨as ++ '"' :: bs, cs ++ '"' :: ds, by simp [he], ?_, ?_⟩
  · exact List.forall_mem_append.mpr
      ⟨has.not_isWordPart, List.forall_mem_cons.mpr ⟨hquote, hbs.not_isWordPart⟩⟩
  · exact List.forall_mem_append.mpr
      ⟨hcs.not_isWordPart, List.forall_mem_cons.mpr ⟨hquote, hds.not_isWordPart⟩⟩

theorem count_quote (h : Denotes expression n) : expression.toList.count '"' = 2 := by
  have hname : n.toList.count '"' = 0 :=
    List.count_eq_zero.mpr fun hmem => absurd (h.isWordPart_name _ hmem) (by decide)
  obtain ⟨as, bs, cs, ds, has, hbs, hcs, hds, he, -⟩ := h
  simp [he, List.count_append, has.count_quote, hbs.count_quote, hcs.count_quote, hds.count_quote,
    hname]

theorem mem_cases (h : Denotes expression n) {c : Char} (hc : c ∈ expression.toList) :
    Text.isBlank c = true ∨ c = '"' ∨ isWordPart c = true := by
  have hname := h.isWordPart_name
  obtain ⟨as, bs, cs, ds, has, hbs, hcs, hds, he, -⟩ := h
  simp only [he, List.mem_append, List.mem_cons] at hc
  rcases hc with (hc | rfl | (hc | hc) | hc) | rfl | hc
  · exact .inl (has c hc)
  · exact .inr (.inl rfl)
  · exact .inl (hbs c hc)
  · exact .inr (.inr (hname c hc))
  · exact .inl (hcs c hc)
  · exact .inr (.inl rfl)
  · exact .inl (hds c hc)

/-- Nothing but parts of the one word stands between two of them. -/
theorem isWordPart_of_between (h : Denotes expression n) {front back : List Char} {w : Char}
    (hsplit : expression.toList = front ++ w :: back) (hfront : ∃ c ∈ front, isWordPart c = true)
    (hback : ∃ c ∈ back, isWordPart c = true) : isWordPart w = true := by
  have hname := h.isWordPart_name
  obtain ⟨before, after, he, hbefore, hafter⟩ := h.exists_around
  obtain ⟨c, hc, hpart⟩ := hfront
  obtain ⟨d, hd, hpart'⟩ := hback
  rw [hsplit, List.append_assoc, List.append_eq_append_iff] at he
  rcases he with ⟨more, rfl, -⟩ | ⟨word, rfl, he⟩
  · exact absurd hpart (by simp [hbefore c (List.mem_append_left more hc)])
  · rcases List.append_eq_append_iff.mp he with ⟨more, rfl, hrest⟩ | ⟨more, hword, hrest⟩
    · have hmem : d ∈ more ++ w :: back :=
        List.mem_append_right more (List.mem_cons_of_mem w hd)
      exact absurd hpart' (by simp [hafter d (hrest ▸ hmem)])
    · cases more with
      | nil =>
        have hmem : d ∈ after := by
          rw [List.nil_append] at hrest
          exact hrest ▸ List.mem_cons_of_mem w hd
        exact absurd hpart' (by simp [hafter d hmem])
      | cons v more =>
        obtain ⟨rfl, -⟩ := List.cons.inj hrest
        exact hname w (by simp [hword])

end Denotes

def Placeholder.Malformed (ε : Type) (p : Placeholder) : Prop :=
  ∃ fault, (p.templateName : Except (ComposeError ε) String) =
    .error (.malformedReference p.expression fault p.span)

/-- A placeholder names a template exactly if its expression denotes it. -/
theorem Placeholder.templateName_eq_ok_iff_denotes {ε : Type} (p : Placeholder) (n : String) :
    (p.templateName : Except (ComposeError ε) String) = .ok n ↔ Denotes p.expression n := by
  rw [p.templateName_eq_ok_iff_name?, p.name?_eq_some_iff, quotes_iff_denotes]

/-- A placeholder is malformed exactly if its expression denotes nothing. -/
theorem Placeholder.malformed_iff {ε : Type} (p : Placeholder) :
    p.Malformed ε ↔ ∀ n, ¬Denotes p.expression n := by
  constructor
  · rintro ⟨fault, hfault⟩ n hn
    rw [(p.templateName_eq_ok_iff_denotes n).mpr hn] at hfault
    cases hfault
  · intro h
    cases hname : (p.templateName : Except (ComposeError ε) String) with
    | ok n => exact absurd ((p.templateName_eq_ok_iff_denotes n).mp hname) (h n)
    | error e =>
      obtain ⟨fault, rfl⟩ := Placeholder.templateName_eq_error hname
      exact ⟨fault, hname⟩

structure ReferenceRead (p : Placeholder) (ε : Type) : Prop where
  accepted : ∀ n, (p.templateName : Except (ComposeError ε) String) = .ok n ↔
    Denotes p.expression n
  refused : p.Malformed ε ↔ ∀ n, ¬Denotes p.expression n
  /-- The lexer reads the name as one identifier, with nothing before or after it. -/
  lexed : ∀ n, Denotes p.expression n → tokens? n = some [.identifier n]
  /-- A quote character that is alone, or more than two of them. -/
  quotes : p.expression.toList.count '"' ≠ 2 → p.Malformed ε
  /-- The characters of comments, parameter references and operators. -/
  foreign : ∀ c ∈ p.expression.toList, Text.isBlank c = false → c ≠ '"' →
    isWordPart c = false → p.Malformed ε
  /-- Two words, however they are set apart. -/
  broken : ∀ front w back, p.expression.toList = front ++ w :: back → isWordPart w = false →
    (∃ c ∈ front, isWordPart c = true) → (∃ c ∈ back, isWordPart c = true) → p.Malformed ε

/-- Every placeholder has its expression read in one of the two ways. -/
theorem referenceRead (p : Placeholder) (ε : Type) : ReferenceRead p ε := by
  constructor
  case accepted => exact p.templateName_eq_ok_iff_denotes
  case refused => exact p.malformed_iff
  case lexed => exact fun n hn => (isIdentifier_iff_tokens? n).mp hn.isIdentifier
  case quotes =>
    intro hcount
    exact p.malformed_iff.mpr fun n hn => hcount hn.count_quote
  case foreign =>
    intro c hc hblank hquote hpart
    refine p.malformed_iff.mpr fun n hn => ?_
    rcases hn.mem_cases hc with h | h | h
    · exact Bool.false_ne_true (hblank.symm.trans h)
    · exact hquote h
    · exact Bool.false_ne_true (hpart.symm.trans h)
  case broken =>
    intro front w back hsplit hw hfront hback
    refine p.malformed_iff.mpr fun n hn => ?_
    exact Bool.false_ne_true (hw.symm.trans (hn.isWordPart_of_between hsplit hfront hback))

/-- No name is declared twice by binding. -/
theorem nodup_bindingParameters_names (declared : List String) (qs : List Placeholder) :
    ((bindingParameters declared qs).map (·.value.name)).Nodup := by
  induction qs generalizing declared with
  | nil => exact List.nodup_nil
  | cons q qs ih =>
    rw [bindingParameters]
    cases q.name? with
    | none => exact ih declared
    | some n =>
      dsimp only
      split_ifs
      · exact ih declared
      · refine List.nodup_cons.mpr ⟨fun hmem => ?_, ih (n :: declared)⟩
        exact ((mem_bindingParameters_names _ qs n).mp hmem).2 List.mem_cons_self

/-- In the bound form each name that is referred to is declared once. -/
theorem Design.count_bound_names {d : Design} (h : d.Bindable) {n : String}
    (hn : n ∈ d.references) : (d.bound.parameters.map (·.value.name)).count n = 1 := by
  have hnew : n ∈ (bindingParameters [] d.placeholders).map (·.value.name) :=
    (mem_bindingParameters_names [] d.placeholders n).mpr ⟨hn, List.not_mem_nil⟩
  have hold : (d.parameters.map (·.value.name)).count n = 0 :=
    List.count_eq_zero.mpr (h.undeclared n hn)
  rw [bound, List.map_append, List.count_append, hold, Nat.zero_add]
  exact List.count_eq_one_of_mem (nodup_bindingParameters_names _ _) hnew

/-- Two placeholders of a design take their report from the one binding of a name in a package, by
the one declaration of a parameter. -/
structure Package.Shares {α : Type} (package : Package α) (rewritten : Design)
    (p q : Placeholder) (n : String) : Prop where
  left : rewritten.element? p.pos = some ⟨Binder.boundElement n, p.span⟩
  right : rewritten.element? q.pos = some ⟨Binder.boundElement n, q.span⟩
  bound : package.names.count n = 1
  declared : (rewritten.parameters.map (·.value.name)).count n = 1

structure SameReference (ε : Type) (p q : Placeholder) (n : String) : Prop where
  resolved : ∀ (store : Store) (d : Design),
    (store.resolve p : Except (ComposeError ε) (String × Design)) = .ok (n, d) ↔
      (store.resolve q : Except (ComposeError ε) (String × Design)) = .ok (n, d)
  shared : ∀ {α : Type} (c : Composer α ε) (master : Design) (package : Package α),
    p ∈ master.placeholders → q ∈ master.placeholders →
    (c.compose master).outcome = .ok package →
    package.Shares (c.compose master).master p q n

/-- A placeholder is resolved to the stored design of the name that it denotes. -/
theorem Store.resolve_eq_ok_iff {ε : Type} {p : Placeholder} {n : String}
    (h : Denotes p.expression n) (store : Store) (d : Design) :
    (store.resolve p : Except (ComposeError ε) (String × Design)) = .ok (n, d) ↔
      (store.lookup n).outcome = .ok d := by
  have hname : (p.templateName : Except (ComposeError ε) String) = .ok n :=
    (p.templateName_eq_ok_iff_denotes n).mpr h
  rw [Store.resolve, hname]
  cases hanswer : (store.lookup n).outcome <;>
    simp [bind, Except.bind, Answer.design, hanswer, Except.mapError, pure, Except.pure]

/-- A placeholder takes its report from the one binding of the name that it quotes. -/
theorem Composer.Completed.shares {α ε : Type} {c : Composer α ε} {master : Design}
    {package : Package α} {made : List (Made α)} (h : c.Completed master package made)
    {p q : Placeholder} {n : String} (hp : p ∈ master.placeholders) (hq : q ∈ master.placeholders)
    (hpn : Quotes p.expression n) (hqn : Quotes q.expression n) :
    package.Shares (c.compose master).master p q n := by
  have hn : n ∈ master.references := (master.mem_references_iff n).mpr ⟨p, hp, hpn⟩
  have hbound : n ∈ package.names := (h.mem_names_iff n).mpr (h.exists_made hn)
  rw [h.rewritten]
  constructor
  case left => exact master.element?_bound hp hpn
  case right => exact master.element?_bound hq hqn
  case bound => exact List.count_eq_one_of_mem (h.names_eq ▸ h.nodup_names) hbound
  case declared => exact Design.count_bound_names h.bindable hn

/-- An expression is read as the name in the one shape of references, or else it is malformed. Two
placeholders of one name are references to the same template. -/
theorem reference_has_one_shape (ε : Type) :
    (∀ p : Placeholder, ReferenceRead p ε) ∧
      ∀ (p q : Placeholder) (n : String), Denotes p.expression n → Denotes q.expression n →
        SameReference ε p q n := by
  refine ⟨fun p => referenceRead p ε, fun p q n hp hq => ?_⟩
  constructor
  case resolved =>
    intro store d
    rw [store.resolve_eq_ok_iff hp, store.resolve_eq_ok_iff hq]
  case shared =>
    intro α c master package hpm hqm hok
    obtain ⟨made, hmade⟩ := Composer.Completed.of_compose_eq_ok c hok
    exact hmade.shares hpm hqm ((quotes_iff_denotes _ n).mpr hp) ((quotes_iff_denotes _ n).mpr hq)

example : ["\"", "\"\"Lines\"\"", "\"Lines /* all */\"", "$P\x7bLines\x7d", "\"Invoice Lines\"",
    "\"text\""].map (fun e => (templateName e).toOption) = List.replicate 6 none := by
  decide +kernel

theorem reference_has_one_shape_sharing :
    ∃ package, ((⟨sharingTemplates.toStore, fun d => .ok d.name, true⟩ :
        Composer String Empty).compose sharingMaster).outcome = .ok package ∧
      package.Shares ((⟨sharingTemplates.toStore, fun d => .ok d.name, true⟩ :
        Composer String Empty).compose sharingMaster).master
        ⟨⟨0, 0⟩, "\"Lines\"", ⟨0, 0⟩⟩ ⟨⟨0, 2⟩, " \" Lines \" ", ⟨0, 0⟩⟩ "Lines" :=
  have hok : ((⟨sharingTemplates.toStore, fun d => .ok d.name, true⟩ :
      Composer String Empty).compose sharingMaster).outcome =
        .ok ⟨"Invoice", [("Totals", "Totals"), ("Lines", "Lines"), ("Notes", "Notes")]⟩ := by cbv
  have htight : Denotes "\"Lines\"" "Lines" :=
    (quotes_iff_denotes _ _).mp ((templateName_eq_ok_iff _ _).mp (by cbv))
  have hloose : Denotes " \" Lines \" " "Lines" :=
    (quotes_iff_denotes _ _).mp ((templateName_eq_ok_iff _ _).mp (by cbv))
  ⟨_, hok, ((reference_has_one_shape Empty).2 _ _ _ htight hloose).shared _ _ _
    (by decide) (by decide) hok⟩

end ReportAssembly
