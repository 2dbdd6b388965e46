import TalkingCalculator.Proofs.MadeDirectories

namespace TalkingCalculator

theorem fromUTF8?_toUTF8 (s : String) : String.fromUTF8? s.toUTF8 = some s :=
  dif_pos s.isValidUTF8

namespace Files

/-- A path can be written to: its last step is a name, no file is on the way to its end, the end is
no directory, and the way does not pass it. -/
structure IsWritable (path : Path) (files : Files) : Prop where
  isName : ∃ name ∈ path.getLast?, name ≠ "" ∧ name ≠ "." ∧ name ≠ ".."
  parents : ∀ parent : Path, parent <+: path.dropLast →
    ∀ contents, node? parent.place files ≠ some (.file contents)
  not_passed : ∀ parent : Path, parent <+: path.dropLast → parent.place ≠ path.place
  not_directory : ¬ HasDirectory path.place files

variable {files : Files} {place other : Place} {path : Path} {refusals : Refusals}
  {contents : ByteArray} {text : String}

theorem hasDirectory_put_file (hplace : ¬ HasDirectory place files) (other : Place)
    (h : HasDirectory other files) : HasDirectory other (put (.file contents) place files) := by
  have hne : other ≠ place := by
    rintro rfl
    exact hplace h
  rw [hasDirectory_iff, shown?_put_of_ne (fun _ h => by cases h) hplace hne, ← hasDirectory_iff]
  exact h

theorem locate_put_file (h : locate path files refusals = .ok place)
    (hplace : ¬ HasDirectory place files) (contents : ByteArray) :
    locate path (put (.file contents) place files) refusals = .ok place ∧
      node? place (put (.file contents) place files) = some (.file contents) := by
  have hne : place ≠ [] := by
    rintro rfl
    exact hplace ⟨files, rfl⟩
  exact ⟨locate_mono (hasDirectory_put_file hplace) (fun _ _ h => h) h,
    node?_put_self hne (hasDirectory_dropLast_of_locate h)⟩

theorem write_of_locate (h : locate path files refusals = .ok place)
    (hplace : ¬ HasDirectory place files) (hwriting : refusals.writing place = none) :
    write contents path files refusals = (put (.file contents) place files, .ok ()) := by
  rw [write, h]
  dsimp only
  split
  · next entries hentries => exact absurd ⟨entries, hentries⟩ hplace
  · rw [hwriting]

/-- What writing leaves: nothing new, or a file at the place that the path leads to, which holds
what was written if nothing failed. -/
theorem write_cases (contents : ByteArray) (path : Path) (files : Files) (refusals : Refusals) :
    (∃ cause, write contents path files refusals = (files, .error cause)) ∨
      ∃ place written result, locate path files refusals = .ok place ∧
        ¬ HasDirectory place files ∧
        write contents path files refusals = (put (.file written) place files, result) ∧
        (result = .ok () → written = contents) := by
  rw [write]
  cases hlocate : locate path files refusals with
  | error cause => exact .inl ⟨_, rfl⟩
  | ok place =>
      dsimp only
      split
      · exact .inl ⟨_, rfl⟩
      · next hentries =>
          have hplace : ¬ HasDirectory place files := fun ⟨entries, h⟩ => hentries entries h
          split
          · exact .inr ⟨place, contents, .ok (), rfl, hplace, rfl, fun _ => rfl⟩
          · exact .inl ⟨_, rfl⟩
          · exact .inr ⟨place, _, _, rfl, hplace, rfl, nofun⟩

theorem readText_of_file (h : find? path files = some (.file text.toUTF8)) :
    readText path files = .ok text := by
  obtain ⟨place, hplace, hnode⟩ := find?_eq_some_iff.1 h
  rw [readText, readBytes, hplace]
  dsimp only
  rw [hnode]
  dsimp only
  rw [fromUTF8?_toUTF8]

theorem readText_eq_ok_or_error (h : find? path files refusals = some (.file text.toUTF8)) :
    readText path files refusals = .ok text ∨
      ∃ cause, readText path files refusals = .error cause := by
  obtain ⟨place, hplace, hnode⟩ := find?_eq_some_iff.1 h
  rw [readText, readBytes, hplace]
  dsimp only
  rw [hnode]
  cases refusals.reading place with
  | some cause => exact .inr ⟨cause, rfl⟩
  | none =>
      dsimp only
      rw [fromUTF8?_toUTF8]
      exact .inl rfl

theorem place_append (parent : Path) (name : String) :
    Path.place (parent ++ [name]) = parent.place.after name := by
  rw [Path.place, List.foldl_append]
  rfl

theorem parent_append {name : String} (parent : Path) (h : Path.moves name = true) :
    Path.parent (parent ++ [name]) = parent.filter Path.moves := by
  rw [Path.parent, List.filter_append, List.filter_singleton, h, cond_true, List.dropLast_concat]

theorem exists_prefix_of_filter {above parent : Path} (h : above <+: parent.filter Path.moves) :
    ∃ unfiltered, unfiltered <+: parent ∧ above.place = Path.place unfiltered := by
  obtain ⟨unfiltered, habove, rfl⟩ := List.prefix_filter_iff.1 h
  exact ⟨unfiltered, habove, foldl_after_filter unfiltered []⟩

/-- A file is written to a writable path, after the directories on the way are made, and found
there. -/
theorem IsWritable.exists_write (h : IsWritable path files) (contents : ByteArray) :
    ∃ made, makeDirectory path.parent files = (made, .ok ()) ∧
      ∃ saved, write contents path made = (saved, .ok ()) ∧
        find? path saved = some (.file contents) := by
  obtain ⟨name, hlast, hempty, hpoint, hpoints⟩ := h.isName
  obtain ⟨parent, rfl⟩ : ∃ parent, path = parent ++ [name] :=
    ⟨path.dropLast, (List.dropLast_append_getLast? name hlast).symm⟩
  have hmoves : Path.moves name = true := by simp [Path.moves, hempty, hpoint]
  have hfiles : ∀ above : Path, above <+: (parent.filter Path.moves).reverse.reverse →
      ∀ contents, node? above.place files ≠ some (.file contents) := by
    intro above habove
    rw [List.reverse_reverse] at habove
    obtain ⟨unfiltered, hparent, heq⟩ := exists_prefix_of_filter habove
    rw [heq]
    exact h.parents unfiltered (by rwa [List.dropLast_concat])
  obtain ⟨made, hmade, hfollow, hdirectory⟩ := exists_makeAbove _ hfiles
  rw [List.reverse_reverse] at hfollow hdirectory
  rw [parent_append parent hmoves]
  refine ⟨made, hmade, ?_⟩
  have hlocate : locate (parent ++ [name]) made = .ok (Path.place (parent ++ [name])) := by
    rw [Path.place, foldl_after_filter, ← Path.place] at hfollow hdirectory
    refine locate_eq_ok_iff.2 ⟨by simp, follow_append_eq_ok_iff.2
      ⟨parent.place, follow_of_filter hfollow hdirectory, ?_⟩⟩
    rw [place_append]
    exact follow_cons_eq_ok_iff.2 ⟨hdirectory, rfl, rfl⟩
  have hplace : ¬ HasDirectory (Path.place (parent ++ [name])) made := by
    have hmakes := makeDirectory_makes (parent.filter Path.moves) files {}
    rw [makeDirectory, hmade] at hmakes
    rw [hasDirectory_iff, shown?_of_makes hmakes, ← hasDirectory_iff]
    · exact h.not_directory
    · intro above habove
      obtain ⟨unfiltered, hparent, heq⟩ := exists_prefix_of_filter habove
      rw [heq]
      exact h.not_passed unfiltered (by rwa [List.dropLast_concat])
  obtain ⟨hagain, hnode⟩ := locate_put_file hlocate hplace contents
  exact ⟨_, write_of_locate hlocate hplace rfl, find?_eq_some_iff.2 ⟨_, hagain, hnode⟩⟩

theorem isWritable_of_locate {made : Files} (hmade : (makeDirectory path.parent files).1 = made)
    (hlocate : locate path made = .ok place) (hplace : ¬ HasDirectory place made) :
    IsWritable path files := by
  have hkept : files.IsKeptIn made := by
    rw [← hmade]
    exact isKeptIn_of_makes (makeDirectory_makes path.parent files {})
  obtain ⟨hne, hfollow⟩ := locate_eq_ok_iff.1 hlocate
  obtain rfl : place = path.place := follow_eq_foldl hfollow
  have hway : ∀ parent : Path, parent <+: path.dropLast → HasDirectory parent.place made := by
    intro parent hparent
    obtain ⟨middle, hmiddle, hdirectory⟩ := exists_of_prefix hfollow hne hparent
    rwa [follow_eq_foldl hmiddle] at hdirectory
  refine ⟨⟨path.getLast hne, List.getLast_mem_getLast? hne, ?_⟩, ?_, ?_, ?_⟩
  · rw [← List.dropLast_append_getLast hne, place_append] at hplace
    have hparent := hway _ (List.prefix_refl _)
    refine ⟨?_, ?_, ?_⟩ <;> intro hlast <;> rw [hlast] at hplace
    · exact hplace hparent
    · exact hplace hparent
    · exact hplace (hasDirectory_dropLast hparent)
  · intro parent hparent contents hfile
    exact not_hasDirectory_of_file (hkept.node?_file hfile) (hway parent hparent)
  · intro parent hparent heq
    exact hplace (heq ▸ hway parent hparent)
  · exact fun hdirectory => hplace (hkept.hasDirectory _ hdirectory)

end Files

end TalkingCalculator
