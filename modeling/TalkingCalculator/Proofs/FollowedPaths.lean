import Mathlib.Data.List.Basic
import TalkingCalculator.Files.Basic

namespace TalkingCalculator

/-- What a file holds. -/
def Node.contents? : Node → Option ByteArray
  | .file contents => some contents
  | .directory _ => none

theorem Node.at?_append (place more : Place) (node : Node) :
    node.at? (place ++ more) = (node.at? place).bind (Node.at? more) := by
  induction place generalizing node with
  | nil => rfl
  | cons name place ih =>
      cases node with
      | file contents => rfl
      | directory entries =>
          simp only [List.cons_append, Node.at?]
          cases entries.lookup name with
          | none => rfl
          | some child => exact ih child

/-- The place that a path leads to if every directory on the way is there. -/
def Path.place (path : Path) : Place :=
  path.foldl Place.after []

namespace Files

/-- What a place shows of what stands there: what a file holds, and of a directory only that it
is one. -/
def shown? (place : Place) (files : Files) : Option (Option ByteArray) :=
  (node? place files).map Node.contents?

def HasDirectory (place : Place) (files : Files) : Prop :=
  ∃ entries, node? place files = some (.directory entries)

/-- `files.IsKeptIn later` says that every directory is still there later, and every file with what
it holds. -/
def IsKeptIn (files later : Files) : Prop :=
  ∀ place shown, shown? place files = some shown → shown? place later = some shown

variable {files later made : Files} {place other here : Place} {path more : Path}
  {name step : String} {node : Node} {refusals : Refusals} {cause : FileFault}

theorem IsKeptIn.refl (files : Files) : files.IsKeptIn files :=
  fun _ _ h => h

theorem IsKeptIn.trans (h : files.IsKeptIn made) (h' : made.IsKeptIn later) :
    files.IsKeptIn later :=
  fun place shown hshown => h' place shown (h place shown hshown)

theorem hasDirectory_iff : HasDirectory place files ↔ shown? place files = some none := by
  rw [HasDirectory, shown?]
  cases node? place files with
  | none => simp
  | some node => cases node <;> simp [Node.contents?]

theorem node?_eq_file_iff {contents : ByteArray} :
    node? place files = some (.file contents) ↔ shown? place files = some (some contents) := by
  rw [shown?]
  cases node? place files with
  | none => simp
  | some node => cases node <;> simp [Node.contents?]

theorem IsKeptIn.hasDirectory (h : files.IsKeptIn later) (place : Place)
    (hplace : HasDirectory place files) : HasDirectory place later :=
  hasDirectory_iff.2 (h _ _ (hasDirectory_iff.1 hplace))

theorem IsKeptIn.node?_file (h : files.IsKeptIn later) {contents : ByteArray}
    (hplace : node? place files = some (.file contents)) :
    node? place later = some (.file contents) :=
  node?_eq_file_iff.2 (h _ _ (node?_eq_file_iff.1 hplace))

theorem not_hasDirectory_of_file {contents : ByteArray}
    (h : node? place files = some (.file contents)) : ¬ HasDirectory place files := by
  rintro ⟨entries, hentries⟩
  rw [h] at hentries
  cases hentries

theorem not_hasDirectory_of_none (h : node? place files = none) : ¬ HasDirectory place files := by
  rintro ⟨entries, hentries⟩
  rw [h] at hentries
  cases hentries

theorem hasDirectory_of_append (hmore : more ≠ []) (h : node? (place ++ more) files ≠ none) :
    HasDirectory place files := by
  rw [node?, Node.at?_append] at h
  rw [HasDirectory, node?]
  obtain ⟨name, more, rfl⟩ := List.exists_cons_of_ne_nil hmore
  cases hnode : (Node.directory files).at? place with
  | none => rw [hnode] at h; exact absurd rfl h
  | some node =>
      cases node with
      | file contents => rw [hnode] at h; exact absurd rfl h
      | directory entries => exact ⟨entries, rfl⟩

theorem hasDirectory_dropLast (h : HasDirectory place files) :
    HasDirectory place.dropLast files := by
  rcases List.eq_nil_or_concat' place with rfl | ⟨parent, name, rfl⟩
  · exact h
  · rw [List.dropLast_concat]
    obtain ⟨entries, hentries⟩ := h
    exact hasDirectory_of_append (List.cons_ne_nil name []) (by rw [hentries]; exact nofun)

theorem node?_cons : node? (name :: place) files = (files.lookup name).bind (Node.at? place) :=
  rfl

/-- Something with nothing inside is put at a place and changes no other one. -/
theorem shown?_put_of_ne (hnode : ∀ entries, node = .directory entries → entries = [])
    (hplace : ¬ HasDirectory place files) (hne : other ≠ place) :
    shown? other (put node place files) = shown? other files := by
  induction place generalizing files other with
  | nil => rw [put]
  | cons name place ih =>
      cases other with
      | nil => rfl
      | cons next other =>
          rw [shown?, shown?, node?_cons, node?_cons]
          by_cases heq : next = name
          · subst heq
            by_cases hlast : place = []
            · subst hlast
              have hother : other ≠ [] := fun h => hne (by rw [h])
              obtain ⟨inner, other, rfl⟩ := List.exists_cons_of_ne_nil hother
              rw [put, if_pos rfl, Association.lookup_put_self]
              have hnothing : node.at? (inner :: other) = none := by
                cases node with
                | file contents => rfl
                | directory entries => rw [hnode entries rfl]; rfl
              rw [Option.bind_some, hnothing]
              cases hnext : files.lookup next with
              | none => rfl
              | some old =>
                  cases old with
                  | file contents => rfl
                  | directory entries =>
                      exact absurd ⟨entries, by rw [node?_cons, hnext]; rfl⟩ hplace
            · rw [put, if_neg hlast]
              split
              · next entries hnext =>
                  rw [Association.lookup_put_self, hnext]
                  have hinside : ¬ HasDirectory place entries := fun ⟨inner, hinner⟩ =>
                    hplace ⟨inner, by rw [node?_cons, hnext]; exact hinner⟩
                  exact ih hinside fun h => hne (by rw [h])
              · rfl
          · rw [put]
            split
            · rw [Association.lookup_put_of_ne heq]
            · split
              · rw [Association.lookup_put_of_ne heq]
              · rfl

theorem node?_put_self (hne : place ≠ []) (h : HasDirectory place.dropLast files) :
    node? place (put node place files) = some node := by
  induction place generalizing files with
  | nil => exact absurd rfl hne
  | cons name place ih =>
      by_cases hlast : place = []
      · subst hlast
        rw [put, if_pos rfl, node?_cons, Association.lookup_put_self]
        rfl
      · rw [List.dropLast_cons_of_ne_nil hlast] at h
        obtain ⟨inner, hinner⟩ := h
        rw [put, if_neg hlast]
        rw [node?_cons] at hinner
        cases hname : files.lookup name with
        | none => rw [hname] at hinner; cases hinner
        | some child =>
            rw [hname, Option.bind_some] at hinner
            cases child with
            | file contents =>
                cases hparent : place.dropLast <;> rw [hparent] at hinner <;> cases hinner
            | directory entries =>
                rw [node?_cons, Association.lookup_put_self]
                exact ih hlast ⟨inner, hinner⟩

theorem isKeptIn_put (hnode : ∀ entries, node = .directory entries → entries = [])
    (hplace : node? place files = none) : files.IsKeptIn (put node place files) := by
  intro other shown hshown
  have hne : other ≠ place := by
    rintro rfl
    rw [shown?, hplace] at hshown
    cases hshown
  rw [shown?_put_of_ne hnode (not_hasDirectory_of_none hplace) hne, hshown]

theorem follow_cons_eq_ok_iff :
    follow refusals files (step :: path) here = .ok place ↔
      HasDirectory here files ∧ refusals.passage here step = none ∧
        follow refusals files path (here.after step) = .ok place := by
  rw [follow, HasDirectory]
  cases node? here files with
  | none => simp
  | some node =>
      cases node with
      | file contents => simp
      | directory entries => cases refusals.passage here step <;> simp

theorem follow_append_eq_ok_iff :
    follow refusals files (path ++ more) here = .ok place ↔
      ∃ middle, follow refusals files path here = .ok middle ∧
        follow refusals files more middle = .ok place := by
  induction path generalizing here with
  | nil => simp [follow]
  | cons step path ih =>
      rw [List.cons_append, follow_cons_eq_ok_iff, ih]
      constructor
      · rintro ⟨hhere, hpassage, middle, hpath, hmore⟩
        exact ⟨middle, follow_cons_eq_ok_iff.2 ⟨hhere, hpassage, hpath⟩, hmore⟩
      · rintro ⟨middle, hpath, hmore⟩
        obtain ⟨hhere, hpassage, hpath⟩ := follow_cons_eq_ok_iff.1 hpath
        exact ⟨hhere, hpassage, middle, hpath, hmore⟩

/-- A path still leads to its place when more directories are there and less is refused. -/
theorem follow_mono {fewer : Refusals}
    (hkept : ∀ place, HasDirectory place files → HasDirectory place later)
    (hfewer : ∀ place step, refusals.passage place step = none → fewer.passage place step = none)
    (h : follow refusals files path here = .ok place) :
    follow fewer later path here = .ok place := by
  induction path generalizing here with
  | nil => exact h
  | cons step path ih =>
      obtain ⟨hhere, hpassage, hpath⟩ := follow_cons_eq_ok_iff.1 h
      exact follow_cons_eq_ok_iff.2 ⟨hkept _ hhere, hfewer _ _ hpassage, ih hpath⟩

theorem follow_eq_foldl (h : follow refusals files path here = .ok place) :
    place = path.foldl Place.after here := by
  induction path generalizing here with
  | nil => exact (Except.ok.inj h).symm
  | cons step path ih => exact ih (follow_cons_eq_ok_iff.1 h).2.2

theorem hasDirectory_dropLast_of_follow (h : follow refusals files path here = .ok place)
    (hhere : HasDirectory here.dropLast files) : HasDirectory place.dropLast files := by
  induction path generalizing here with
  | nil => rwa [← Except.ok.inj h]
  | cons step path ih =>
      obtain ⟨hdirectory, -, hpath⟩ := follow_cons_eq_ok_iff.1 h
      refine ih hpath ?_
      rw [Place.after]
      split
      · exact hhere
      · split
        · exact hasDirectory_dropLast hhere
        · rwa [List.dropLast_concat]

theorem hasDirectory_of_follow_cons (h : follow refusals files (step :: path) here = .ok place) :
    HasDirectory here files :=
  (follow_cons_eq_ok_iff.1 h).1

theorem after_of_not_moves (h : Path.moves step = false) : here.after step = here := by
  rw [Place.after, if_pos]
  simpa [Path.moves, Decidable.or_iff_not_imp_left] using h

theorem exists_of_prefix (h : follow refusals files path here = .ok place) (hpath : path ≠ [])
    (hmore : more <+: path.dropLast) :
    ∃ middle, follow refusals files more here = .ok middle ∧ HasDirectory middle files := by
  obtain ⟨rest, hrest⟩ := hmore
  rw [← List.dropLast_append_getLast hpath, ← hrest, List.append_assoc,
    follow_append_eq_ok_iff] at h
  obtain ⟨middle, hmiddle, hlater⟩ := h
  refine ⟨middle, hmiddle, ?_⟩
  cases rest with
  | nil => exact hasDirectory_of_follow_cons hlater
  | cons step rest => exact hasDirectory_of_follow_cons hlater

theorem follow_of_no_file
    (hfiles : ∀ parent, parent <+: path →
      ∀ contents, node? (parent.foldl Place.after here) files ≠ some (.file contents)) :
    follow {} files path here = .error .notFound ∨
      ∃ place, follow {} files path here = .ok place := by
  induction path generalizing here with
  | nil => exact .inr ⟨here, rfl⟩
  | cons step path ih =>
      rw [follow]
      split
      · exact .inl rfl
      · next contents hhere => exact absurd hhere (hfiles [] List.nil_prefix contents)
      · exact ih fun parent hparent =>
          hfiles (step :: parent) ((List.prefix_cons_inj step).2 hparent)

theorem follow_filter (h : follow refusals files path here = .ok place) :
    follow refusals files (path.filter Path.moves) here = .ok place := by
  induction path generalizing here with
  | nil => exact h
  | cons step path ih =>
      obtain ⟨hhere, hpassage, hpath⟩ := follow_cons_eq_ok_iff.1 h
      cases hmoves : Path.moves step with
      | true =>
          rw [List.filter_cons_of_pos hmoves]
          exact follow_cons_eq_ok_iff.2 ⟨hhere, hpassage, ih hpath⟩
      | false =>
          rw [List.filter_cons_of_neg (by rw [hmoves]; exact Bool.false_ne_true)]
          rw [after_of_not_moves hmoves] at hpath
          exact ih hpath

theorem follow_of_filter (h : follow {} files (path.filter Path.moves) here = .ok place)
    (hplace : HasDirectory place files) : follow {} files path here = .ok place := by
  induction path generalizing here with
  | nil => exact h
  | cons step path ih =>
      cases hmoves : Path.moves step with
      | true =>
          rw [List.filter_cons_of_pos hmoves] at h
          obtain ⟨hhere, hpassage, hpath⟩ := follow_cons_eq_ok_iff.1 h
          exact follow_cons_eq_ok_iff.2 ⟨hhere, hpassage, ih hpath⟩
      | false =>
          rw [List.filter_cons_of_neg (by rw [hmoves]; exact Bool.false_ne_true)] at h
          refine follow_cons_eq_ok_iff.2 ⟨?_, rfl, ?_⟩
          · cases hrest : path.filter Path.moves with
            | nil =>
                rw [hrest] at h
                rwa [Except.ok.inj h]
            | cons next rest =>
                rw [hrest] at h
                exact hasDirectory_of_follow_cons h
          · rw [after_of_not_moves hmoves]
            exact ih h

theorem foldl_after_filter (path : Path) (here : Place) :
    (path.filter Path.moves).foldl Place.after here = path.foldl Place.after here := by
  induction path generalizing here with
  | nil => rfl
  | cons step path ih =>
      cases hmoves : Path.moves step with
      | true =>
          rw [List.filter_cons_of_pos hmoves]
          exact ih _
      | false =>
          rw [List.filter_cons_of_neg (by rw [hmoves]; exact Bool.false_ne_true), List.foldl_cons,
            after_of_not_moves hmoves]
          exact ih here

end Files

end TalkingCalculator
