namespace ReportAssembly.Text.Quoted

def encodeChar (c : Char) : List Char :=
  if c = '"' then ['\\', '"']
  else if c = '\\' then ['\\', '\\']
  else if c = '\n' then ['\\', 'n']
  else if c = '\t' then ['\\', 't']
  else [c]

def encode (cs : List Char) : List Char :=
  cs.flatMap encodeChar

def escaped (c : Char) : Char :=
  if c = 'n' then '\n' else if c = 't' then '\t' else c

/-- The text that a written form stands for; a backslash at the very end stands for itself. -/
def decode : List Char → List Char
  | [] => []
  | [c] => [c]
  | c :: d :: cs => if c = '\\' then escaped d :: decode cs else c :: decode (d :: cs)

theorem decode_cons_of_ne {c : Char} (h : c ≠ '\\') (cs : List Char) :
    decode (c :: cs) = c :: decode cs := by
  cases cs <;> simp [decode, h]

/-- An encoded character is decoded to itself. -/
theorem decode_encodeChar_append (c : Char) (rest : List Char) :
    decode (encodeChar c ++ rest) = c :: decode rest := by
  by_cases hq : c = '"'
  · subst hq; simp [encodeChar, decode, escaped]
  by_cases hb : c = '\\'
  · subst hb; simp [encodeChar, decode, escaped]
  by_cases hn : c = '\n'
  · subst hn; simp [encodeChar, decode, escaped]
  by_cases ht : c = '\t'
  · subst ht; simp [encodeChar, decode, escaped]
  simpa [encodeChar, hq, hb, hn, ht] using decode_cons_of_ne hb rest

/-- Every text reads back from its written form. -/
theorem decode_encode (cs : List Char) : decode (encode cs) = cs := by
  induction cs with
  | nil => rfl
  | cons c cs ih =>
    simp only [encode, List.flatMap_cons] at ih ⊢
    rw [decode_encodeChar_append, ih]

end ReportAssembly.Text.Quoted
