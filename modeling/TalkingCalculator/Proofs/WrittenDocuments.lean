import TalkingCalculator.Proofs.WrittenScalars

namespace TalkingCalculator.Toml

theorem ne_of_isBare {c d : Char} (hc : isBare c = true) (hd : isBare d = false) : c ≠ d := by
  rintro rfl
  rw [hc] at hd
  cases hd

theorem skipGap_cons {c : Char} {cs : List Char} (hspace : c ≠ ' ') (htab : c ≠ '\t') :
    skipGap (c :: cs) = c :: cs := by
  rw [skipGap, List.dropWhile_cons_of_neg]
  simp [isGap, hspace, htab]

theorem skipMark_cons {c : Char} (hc : isBare c = true) (cs : List Char) :
    skipMark (c :: cs) = c :: cs := by
  rw [skipMark, if_neg]
  intro hmark
  obtain rfl : c = Char.ofNat 0xFEFF := by rw [← hmark, Char.ofNat_toNat]
  exact absurd hc (by decide)

/-- A value that is written on a line under a bare key. -/
structure Assignment where
  key : String
  written : List Char
  value : Value
  key_ne_nil : key.toList ≠ []
  key_isBare : ∀ c ∈ key.toList, isBare c = true
  isWritten : IsWritten written value

namespace Assignment

variable (a : Assignment) (rest : List Char)

def line : List Char :=
  Settings.line a.key a.written

def statement : Statement :=
  .assignment [a.key] a.value

def entry : String × Value :=
  (a.key, a.value)

theorem line_append :
    a.line ++ rest = a.key.toList ++ ' ' :: '=' :: ' ' :: (a.written ++ '\n' :: rest) := by
  simp [line, Settings.line]

theorem exists_key_eq : ∃ c cs, a.key.toList = c :: cs ∧ isBare c = true := by
  obtain ⟨c, cs, hkey⟩ := List.exists_cons_of_ne_nil a.key_ne_nil
  exact ⟨c, cs, hkey, a.key_isBare c (by rw [hkey]; exact List.mem_cons_self ..)⟩

theorem readKey_line :
    readKey (a.key.toList ++ ' ' :: '=' :: rest) = some ([a.key], '=' :: rest) := by
  have hbare : ∀ c ∈ (' ' :: '=' :: rest).head?, isBare c = false := by
    rintro c ⟨⟩
    decide
  have hpart : readKeyPart (a.key.toList ++ ' ' :: '=' :: rest) =
      some (a.key, ' ' :: '=' :: rest) := by
    rw [readKeyPart, takeWhile_run a.key_isBare hbare, dropWhile_run a.key_isBare hbare,
      if_pos a.key_ne_nil, String.ofList_toList]
  have hgap : skipGap (a.key.toList ++ ' ' :: '=' :: rest) =
      a.key.toList ++ ' ' :: '=' :: rest := by
    obtain ⟨c, cs, hkey, hc⟩ := a.exists_key_eq
    rw [hkey, List.cons_append,
      skipGap_cons (ne_of_isBare hc (by decide)) (ne_of_isBare hc (by decide))]
  have hgap' : skipGap (' ' :: '=' :: rest) = '=' :: rest := rfl
  have hparts : readKeyParts (a.key.toList ++ ' ' :: '=' :: rest) =
      some ([a.key], '=' :: rest) := by
    rw [readKeyParts, hgap, hpart]
    dsimp only
    rw [hgap']
    rfl
  rw [readKey, hparts]
  rfl

theorem readValue_written (levels : Nat) :
    readValue levels (a.written ++ '\n' :: rest) = some (a.value, '\n' :: rest) := by
  have hread := a.isWritten.reads rest
  obtain ⟨c, cs, hwritten, hc⟩ := a.isWritten.head
  simp only [List.mem_cons, not_or] at hc
  obtain ⟨hbracket, hbrace, -⟩ := hc
  cases levels with
  | zero => exact hread
  | succ levels =>
      rw [hwritten, List.cons_append] at hread ⊢
      rw [readValue]
      · exact hread
      · exact fun more hmore => hbracket (List.cons.inj hmore).1
      · exact fun more hmore => hbrace (List.cons.inj hmore).1

theorem readStatement_append :
    readStatement (a.line ++ rest) = some ([a.statement], '\n' :: rest) := by
  have hgap : skipGap (' ' :: (a.written ++ '\n' :: rest)) = a.written ++ '\n' :: rest := by
    obtain ⟨c, cs, hwritten, hc⟩ := a.isWritten.head
    simp only [List.mem_cons, not_or] at hc
    rw [hwritten]
    exact skipGap_cons hc.2.2.1 hc.2.2.2.1
  have hpair : readPair (readValue (depthLimit - 1)) (a.line ++ rest) =
      some (([a.key], a.value), '\n' :: rest) := by
    rw [line_append, readPair, readKey_line]
    simp only [Option.bind_eq_bind, Option.bind_some, hgap, readValue_written]
    rfl
  rw [line_append] at hpair ⊢
  obtain ⟨c, cs, hkey, hc⟩ := a.exists_key_eq
  rw [hkey, List.cons_append] at hpair ⊢
  rw [readStatement, skipGap_cons (ne_of_isBare hc (by decide)) (ne_of_isBare hc (by decide))]
  -- no other statement begins with a character of a bare key
  split
  · next heq => cases heq
  · next heq => exact absurd (List.cons.inj heq).1 (ne_of_isBare hc (by decide))
  · next heq => exact absurd (List.cons.inj heq).1 (ne_of_isBare hc (by decide))
  · next heq => exact absurd (List.cons.inj heq).1 (ne_of_isBare hc (by decide))
  · next heq => exact absurd (List.cons.inj heq).1 (ne_of_isBare hc (by decide))
  · rw [hpair]
    rfl

theorem readLines_append :
    readLines (a.line ++ rest) = (readLines rest).map fun more => a.statement :: more := by
  have hne : a.line ++ rest ≠ [] := by
    rw [line_append]
    exact List.append_ne_nil_of_left_ne_nil a.key_ne_nil _
  have hlt : rest.length < (a.line ++ rest).length := by
    rw [line_append]
    simp only [List.length_append, List.length_cons]
    omega
  have hend : lineEnd? ('\n' :: rest) = some rest := rfl
  rw [readLines, if_neg hne, readStatement_append]
  dsimp only
  rw [hend]
  dsimp only
  rw [dif_pos hlt]
  rfl

theorem noReturn_line : '\r' ∉ a.line := by
  rw [← List.append_nil a.line, line_append]
  simp only [List.mem_append, List.mem_cons, List.not_mem_nil, or_false, not_or]
  refine ⟨fun hmem => absurd (a.key_isBare _ hmem) (by decide), by decide, by decide, by decide,
    a.isWritten.noReturn, by decide⟩

end Assignment

variable {assignments : List Assignment}

/-- The text of assignments, each on its line. -/
def documentText (assignments : List Assignment) : List Char :=
  assignments.flatMap Assignment.line

theorem readLines_documentText (assignments : List Assignment) :
    readLines (documentText assignments) = some (assignments.map Assignment.statement) := by
  induction assignments with
  | nil =>
      rw [documentText, List.flatMap_nil, readLines, if_pos rfl]
      rfl
  | cons a assignments ih =>
      have htext : documentText (a :: assignments) = a.line ++ documentText assignments := rfl
      rw [htext, a.readLines_append, ih]
      rfl

theorem assignUnder_of_lookup_eq_none {entries : Entries} {key : String} (value : Value)
    (h : entries.lookup key = none) :
    entries.assignUnder [] [key] value = some (entries ++ [(key, value)]) := by
  rw [Entries.assignUnder, if_pos rfl, Entries.assign, Entries.alter, h]
  exact congrArg some (Association.put_of_lookup_eq_none value h)

theorem build_assignments {entries : Entries}
    (hnew : ∀ a ∈ assignments, entries.lookup a.key = none)
    (hkeys : (assignments.map Assignment.key).Nodup) :
    Entries.build [] (assignments.map Assignment.statement) entries =
      some (entries ++ assignments.map Assignment.entry) := by
  induction assignments generalizing entries with
  | nil => exact congrArg some (List.append_nil entries).symm
  | cons a assignments ih =>
      rw [List.map_cons, List.nodup_cons] at hkeys
      rw [List.forall_mem_cons] at hnew
      have hnext : ∀ b ∈ assignments, (entries ++ [a.entry]).lookup b.key = none := by
        intro b hb
        have hne : b.key ≠ a.key := fun heq => hkeys.1 (heq ▸ List.mem_map_of_mem hb)
        rw [List.lookup_append, hnew.2 b hb]
        simp [Assignment.entry, List.lookup_cons, beq_false_of_ne hne]
      rw [List.map_cons, Assignment.statement, Entries.build,
        assignUnder_of_lookup_eq_none a.value hnew.1]
      change Entries.build [] (assignments.map Assignment.statement) (entries ++ [a.entry]) = _
      rw [ih hnext hkeys.2, List.append_assoc]
      rfl

theorem unifyLineEnds_eq_self {cs : List Char} (h : '\r' ∉ cs) : unifyLineEnds cs = cs := by
  induction cs with
  | nil => rfl
  | cons c cs ih =>
      rw [List.mem_cons, not_or] at h
      rw [unifyLineEnds, ih h.2]
      rintro more rfl
      exact absurd rfl h.1

/-- A document of assignments to keys that differ is read as their table. -/
theorem readDocument_documentText (hkeys : (assignments.map Assignment.key).Nodup) :
    readDocument (String.ofList (documentText assignments)) =
      some (assignments.map Assignment.entry) := by
  have hreturn : '\r' ∉ documentText assignments := by
    intro hmem
    obtain ⟨a, -, ha⟩ := List.mem_flatMap.1 hmem
    exact a.noReturn_line ha
  have hmark : skipMark (documentText assignments) = documentText assignments := by
    cases assignments with
    | nil => rfl
    | cons a assignments =>
        obtain ⟨c, cs, hkey, hc⟩ := a.exists_key_eq
        have htext : documentText (a :: assignments) = a.line ++ documentText assignments := rfl
        rw [htext, a.line_append, hkey]
        exact skipMark_cons hc _
  rw [readDocument, String.toList_ofList, hmark, unifyLineEnds_eq_self hreturn,
    readLines_documentText]
  exact build_assignments (fun a ha => rfl) hkeys

end TalkingCalculator.Toml
