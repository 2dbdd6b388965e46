import TalkingCalculator.Proofs.SinglePrecision
import TalkingCalculator.Proofs.WritablePaths
import TalkingCalculator.Proofs.WrittenDocuments
import TalkingCalculator.Settings.Storage

namespace TalkingCalculator

namespace Settings

open Toml

variable {s : Settings}

/-- The keys of the settings, in the order in which they are written. -/
def keys : List String :=
  ["langue", "mode_degres", "voix_active", "debit_voix", "commande_voix", "police"]

theorem isBare_of_mem_keys {key : String} (h : key ∈ keys) :
    key.toList ≠ [] ∧ ∀ c ∈ key.toList, isBare c = true := by
  have hkeys : keys.all (fun key => !key.toList.isEmpty && key.toList.all isBare) = true := by
    decide
  have hkey := List.all_eq_true.1 hkeys key h
  rw [Bool.and_eq_true] at hkey
  exact ⟨by simpa using hkey.1, List.all_eq_true.1 hkey.2⟩

/-- The assignment of a value to the key of a setting. -/
def assignment (key : String) (hkey : key ∈ keys) {w : List Char} {v : Value} (hw : IsWritten w v) :
    Assignment where
  key := key
  written := w
  value := v
  key_ne_nil := (isBare_of_mem_keys hkey).1
  key_isBare := (isBare_of_mem_keys hkey).2
  isWritten := hw

def assignments (s : Settings) (hrate : Single.IsFinite s.rate) (font : Option String) :
    List Assignment :=
  [assignment "langue" (by decide) (isWritten_text s.language.code),
    assignment "mode_degres" (by decide) (isWritten_boolean s.degrees),
    assignment "voix_active" (by decide) (isWritten_boolean s.voiceActive),
    assignment "debit_voix" (by decide) (isWritten_float (Single.isFinite_widen hrate)),
    assignment "commande_voix" (by decide) (isWritten_text s.speechCommand)] ++
  (font.map fun name => assignment "police" (by decide) (isWritten_text name)).toList

theorem nodup_keys (hrate : Single.IsFinite s.rate) (font : Option String) :
    ((s.assignments hrate font).map Assignment.key).Nodup := by
  have hkeys : ((s.assignments hrate font).map Assignment.key).Sublist keys := by
    cases font with
    | none => exact List.sublist_append_left _ ["police"]
    | some name => exact List.Sublist.refl keys
  exact hkeys.nodup (by decide)

theorem text?_eq (hrate : Single.IsFinite s.rate) {font : Option String}
    (hfont : s.font = font.map String.toUTF8) :
    s.text? = some (String.ofList (documentText (s.assignments hrate font))) := by
  have hlines : ∀ fontLine, s.lines fontLine =
      String.ofList (documentText (s.assignments hrate none) ++ fontLine) := by
    intro fontLine
    simp [lines, documentText, assignments, Assignment.line, assignment]
  cases font with
  | none =>
      rw [text?, hfont, hlines, List.append_nil]
      rfl
  | some name =>
      rw [text?, hfont, Option.map_some]
      dsimp only
      rw [fromUTF8?_toUTF8, Option.map_some, hlines]
      simp [documentText, assignments, Assignment.line, assignment]

theorem ofEntries?_assignments (hrate : Single.IsFinite s.rate) {font : Option String}
    (hfont : s.font = font.map String.toUTF8) :
    ofEntries? ((s.assignments hrate font).map Assignment.entry) = some s := by
  have hlanguage : languageOf? (.text s.language.code) = some s.language :=
    Language.ofCode?_code s.language
  have hrate' : rateOf? (.float (Single.widen s.rate)) = some s.rate :=
    congrArg some (Single.narrow_widen hrate)
  obtain ⟨language, degrees, voiceActive, rate, speechCommand, font'⟩ := s
  dsimp only at hfont
  subst hfont
  cases font <;>
    simp [ofEntries?, Settings.entry, assignments, assignment, Assignment.entry, List.lookup,
      hlanguage, hrate', booleanOf?, textOf?, default]

theorem exists_text?_eq (hrate : Single.IsFinite s.rate)
    (hfont : ∀ name ∈ s.font, name.IsValidUTF8) :
    ∃ text, s.text? = some text ∧ ofText? text = some s := by
  obtain ⟨font, hname⟩ : ∃ font : Option String, s.font = font.map String.toUTF8 := by
    cases hname : s.font with
    | none => exact ⟨none, rfl⟩
    | some name => exact ⟨some (String.fromUTF8 name (hfont name hname)), rfl⟩
  refine ⟨_, text?_eq hrate hname, ?_⟩
  rw [ofText?, readDocument_documentText (nodup_keys hrate font)]
  exact ofEntries?_assignments hrate hname

theorem save_of_write {path : Path} {files made saved : Files} {text : String} {refusals : Refusals}
    (htext : s.text? = some text)
    (hmade : Files.makeDirectory path.parent files refusals = (made, .ok ()))
    (hwrite : Files.write text.toUTF8 path made refusals = (saved, .ok ())) :
    s.save path files refusals = (saved, .ok ()) := by
  rw [save, hmade]
  dsimp only
  rw [htext]
  dsimp only
  rw [hwrite]

theorem read_of_find? {path : Path} {files : Files} {text : String} (hread : ofText? text = some s)
    (hfind : Files.find? path files = some (.file text.toUTF8)) : read path files = .ok s := by
  rw [read, Files.readText_of_file hfind]
  dsimp only
  rw [hread]

/-- Settings with a finite rate, and with a text for the path of the font if there is one, are
loaded as they were saved. -/
theorem load_after_save {path : Path} {files : Files} (hrate : Single.IsFinite s.rate)
    (hfont : ∀ name ∈ s.font, name.IsValidUTF8) (hpath : Files.IsWritable path files) :
    ∃ saved, s.save path files = (saved, .ok ()) ∧ load path saved = (saved, .ok s) := by
  obtain ⟨text, htext, hread⟩ := exists_text?_eq hrate hfont
  obtain ⟨made, hmade, saved, hwrite, hfind⟩ := hpath.exists_write text.toUTF8
  refine ⟨saved, save_of_write htext hmade hwrite, ?_⟩
  rw [load, hfind]
  exact congrArg (Prod.mk saved) (read_of_find? hread hfind)

theorem load_after_save_quoted :
    Single.IsFinite (Single.ofDecimal true ⟨1, -1⟩) ∧
      Files.IsWritable ["home",
        "settings"] [("home", .directory [("settings", .file "langue = 1".toUTF8)])] ∧
      ∃ saved,
        save ⟨.english, true, false, Single.ofDecimal true ⟨1, -1⟩, "a\"\"\"b'''\\c\r\n\x07é",
          some "p'\"\\q".toUTF8⟩
          ["home", "settings"] [("home", .directory [("settings", .file "langue = 1".toUTF8)])] =
            (saved, .ok ()) ∧
        load ["home", "settings"] saved =
          (saved,
            .ok ⟨.english, true, false, Single.ofDecimal true ⟨1, -1⟩, "a\"\"\"b'''\\c\r\n\x07é",
            some "p'\"\\q".toUTF8⟩) := by
  have hrate : Single.IsFinite (Single.ofDecimal true ⟨1, -1⟩) := by decide +kernel
  have hpath : Files.IsWritable ["home",
      "settings"] [("home", .directory [("settings", .file "langue = 1".toUTF8)])] := by
    exact Files.isWritable_of_locate rfl rfl (Files.not_hasDirectory_of_file rfl)
  exact ⟨hrate, hpath, load_after_save hrate (by rintro name ⟨⟩; exact String.isValidUTF8 _) hpath⟩

end Settings

end TalkingCalculator
