import Mathlib.Logic.Relation
import TalkingCalculator.Proofs.FollowedPaths

namespace TalkingCalculator

namespace Files

variable {files later made : Files} {place : Place} {path parent more : Path} {step : String}
  {node : Node} {refusals : Refusals} {contents : ByteArray}

/-- One directory more is made, on the way to a path. -/
def MakesOne (path : Path) (refusals : Refusals) (files made : Files) : Prop :=
  ∃ parent, parent <+: path ∧ makeEntry parent files refusals = .ok made

theorem locate_eq_ok_iff :
    locate path files refusals = .ok place ↔
      path ≠ [] ∧ follow refusals files path [] = .ok place := by
  rw [locate]
  split
  · next h => simp [h]
  · next h => simp [h]

theorem locate_mono {fewer : Refusals}
    (hkept : ∀ place, HasDirectory place files → HasDirectory place later)
    (hfewer : ∀ place step, refusals.passage place step = none → fewer.passage place step = none)
    (h : locate path files refusals = .ok place) : locate path later fewer = .ok place := by
  rw [locate_eq_ok_iff] at h ⊢
  exact ⟨h.1, follow_mono hkept hfewer h.2⟩

theorem locate_of_refusals (h : locate path files refusals = .ok place) :
    locate path files = .ok place :=
  locate_mono (fun _ h => h) (fun _ _ _ => rfl) h

theorem hasDirectory_dropLast_of_locate (h : locate path files refusals = .ok place) :
    HasDirectory place.dropLast files :=
  hasDirectory_dropLast_of_follow (locate_eq_ok_iff.1 h).2 ⟨files, rfl⟩

theorem find?_eq_some_iff :
    find? path files refusals = some node ↔
      ∃ place, locate path files refusals = .ok place ∧ node? place files = some node := by
  rw [find?]
  cases locate path files refusals <;> simp

theorem find?_eq_none_iff :
    find? path files refusals = none ↔
      ∀ place, locate path files refusals = .ok place → node? place files = none := by
  rw [find?]
  cases locate path files refusals <;> simp

theorem exists_of_makeEntry (h : makeEntry path files refusals = .ok made) :
    ∃ place, locate path files refusals = .ok place ∧ node? place files = none ∧
      made = put (.directory []) place files := by
  rw [makeEntry] at h
  split at h
  · cases h
  · next place hplace =>
      refine ⟨place, hplace, ?_⟩
      split at h
      · cases h
      · cases h
      · next hnone _ => exact ⟨hnone, (Except.ok.inj h).symm⟩

theorem eq_nil_of_directory_nil :
    ∀ entries, Node.directory [] = .directory entries → entries = [] := by
  rintro entries ⟨⟩
  rfl

theorem isKeptIn_of_makesOne (h : MakesOne path refusals files made) : files.IsKeptIn made := by
  obtain ⟨parent, -, hmade⟩ := h
  obtain ⟨place, -, hnone, rfl⟩ := exists_of_makeEntry hmade
  exact isKeptIn_put eq_nil_of_directory_nil hnone

theorem node?_file_of_makesOne (h : MakesOne path refusals files made)
    (hfile : node? place made = some (.file contents)) :
    node? place files = some (.file contents) := by
  obtain ⟨parent, -, hmade⟩ := h
  obtain ⟨target, htarget, hnone, rfl⟩ := exists_of_makeEntry hmade
  have hne : place ≠ target := by
    rintro rfl
    have hnil : place ≠ [] := by
      rintro rfl
      cases hnone
    rw [node?_put_self hnil (hasDirectory_dropLast_of_locate htarget)] at hfile
    cases hfile
  rw [node?_eq_file_iff] at hfile ⊢
  rwa [shown?_put_of_ne eq_nil_of_directory_nil (not_hasDirectory_of_none hnone) hne] at hfile

theorem ensureEntry_makes (hpath : parent <+: path) (files : Files) (refusals : Refusals) :
    Relation.ReflTransGen (MakesOne path refusals) files (ensureEntry parent files refusals).1 := by
  rw [ensureEntry]
  split
  · next made hmade => exact .single ⟨parent, hpath, hmade⟩
  · exact .refl

theorem makeAbove_makes (steps : List String) (files : Files) (refusals : Refusals) :
    Relation.ReflTransGen (MakesOne steps.reverse refusals) files
      (makeAbove refusals steps files).1 := by
  induction steps generalizing files with
  | nil => exact .refl
  | cons step steps ih =>
      rw [makeAbove]
      split
      · have habove : Relation.ReflTransGen (MakesOne (step :: steps).reverse refusals) files
            (makeAbove refusals steps files).1 := by
          refine Relation.ReflTransGen.mono (fun before after h => ?_) _ _ (ih files)
          obtain ⟨parent, hparent, hmade⟩ := h
          refine ⟨parent, hparent.trans ?_, hmade⟩
          rw [List.reverse_cons]
          exact List.prefix_append _ _
        split
        · next made hmade =>
            rw [hmade] at habove
            exact habove.trans (ensureEntry_makes (List.prefix_refl _) made refusals)
        · next made cause hmade =>
            rw [hmade] at habove
            exact habove
      · exact ensureEntry_makes (List.prefix_refl _) files refusals

theorem makeDirectory_makes (path : Path) (files : Files) (refusals : Refusals) :
    Relation.ReflTransGen (MakesOne path refusals) files (makeDirectory path files refusals).1 := by
  have h := makeAbove_makes path.reverse files refusals
  rwa [List.reverse_reverse] at h

theorem isKeptIn_of_makes (h : Relation.ReflTransGen (MakesOne path refusals) files made) :
    files.IsKeptIn made := by
  induction h with
  | refl => exact .refl files
  | tail _ hone ih => exact ih.trans (isKeptIn_of_makesOne hone)

theorem node?_file_of_makes (h : Relation.ReflTransGen (MakesOne path refusals) files made)
    (hfile : node? place made = some (.file contents)) :
    node? place files = some (.file contents) := by
  induction h with
  | refl => exact hfile
  | tail _ hone ih => exact ih (node?_file_of_makesOne hone hfile)

/-- Directories are made only at the places on the way. -/
theorem shown?_of_makes (h : Relation.ReflTransGen (MakesOne path refusals) files made)
    (hplace : ∀ parent : Path, parent <+: path → parent.place ≠ place) :
    shown? place made = shown? place files := by
  induction h with
  | refl => rfl
  | tail _ hone ih =>
      obtain ⟨parent, hparent, hmade⟩ := hone
      obtain ⟨target, htarget, hnone, rfl⟩ := exists_of_makeEntry hmade
      have htarget : target = Path.place parent := follow_eq_foldl (locate_eq_ok_iff.1 htarget).2
      have hne : place ≠ target := by
        rw [htarget]
        exact (hplace parent hparent).symm
      rw [shown?_put_of_ne eq_nil_of_directory_nil (not_hasDirectory_of_none hnone) hne, ih]

theorem makeDirectory_parent_eq_self (h : find? path files = some node) (refusals : Refusals) :
    (makeDirectory path.parent files refusals).1 = files := by
  -- Where a path leads to something, its directory is there and nothing is made.
  obtain ⟨place, hplace, -⟩ := find?_eq_some_iff.1 h
  have hfollow := follow_filter (locate_eq_ok_iff.1 hplace).2
  rcases (makeDirectory_makes path.parent files refusals).cases_head with
    heq | ⟨made, ⟨parent, hparent, hmade⟩, -⟩
  · exact heq.symm
  · obtain ⟨target, htarget, hnone, -⟩ := exists_of_makeEntry hmade
    obtain ⟨hne, htarget⟩ := locate_eq_ok_iff.1 (locate_of_refusals htarget)
    have hmoves : path.filter Path.moves ≠ [] := by
      intro hnil
      rw [Path.parent, hnil] at hparent
      exact hne (List.prefix_nil.1 hparent)
    obtain ⟨middle, hmiddle, entries, hentries⟩ := exists_of_prefix hfollow hmoves hparent
    rw [Except.ok.inj (htarget.symm.trans hmiddle), hentries] at hnone
    cases hnone

theorem exists_ensureEntry (hparent : follow {} files path [] = .ok place)
    (hplace : HasDirectory place files)
    (hfile : ∀ contents, node? (place.after step) files ≠ some (.file contents)) :
    makeEntry (path ++ [step]) files {} ≠ .error .notFound ∧
      ∃ made, ensureEntry (path ++ [step]) files {} = (made, .ok ()) ∧
        follow {} made (path ++ [step]) [] = .ok (place.after step) ∧
        HasDirectory (place.after step) made := by
  have hstep : follow {} files (path ++ [step]) [] = .ok (place.after step) :=
    follow_append_eq_ok_iff.2 ⟨place, hparent, follow_cons_eq_ok_iff.2 ⟨hplace, rfl, rfl⟩⟩
  have hlocate : locate (path ++ [step]) files = .ok (place.after step) :=
    locate_eq_ok_iff.2 ⟨by simp, hstep⟩
  cases hnode : node? (place.after step) files with
  | none =>
      have hmade : makeEntry (path ++ [step]) files {} =
          .ok (put (.directory []) (place.after step) files) := by
        rw [makeEntry, hlocate]
        dsimp only
        rw [hnode]
      have hne : place.after step ≠ [] := by
        intro hnil
        rw [hnil] at hnode
        cases hnode
      refine ⟨by rw [hmade]; exact nofun, _, by rw [ensureEntry, hmade], ?_, [], ?_⟩
      · exact follow_mono (isKeptIn_put eq_nil_of_directory_nil hnode).hasDirectory
          (fun _ _ h => h) hstep
      · exact node?_put_self hne (hasDirectory_dropLast_of_locate hlocate)
  | some node =>
      have hmade : makeEntry (path ++ [step]) files {} = .error .alreadyExists := by
        rw [makeEntry, hlocate]
        dsimp only
        rw [hnode]
      cases node with
      | file contents => exact absurd hnode (hfile contents)
      | directory entries =>
          refine ⟨by rw [hmade]; exact nofun, files, ?_, hstep, entries, hnode⟩
          have hfind : find? (path ++ [step]) files = some (.directory entries) :=
            find?_eq_some_iff.2 ⟨_, hlocate, hnode⟩
          have hholds : holdsDirectory (path ++ [step]) files = true := by
            rw [holdsDirectory, hfind]
          rw [ensureEntry, hmade]
          dsimp only
          rw [if_pos hholds]

/-- A directory is made with those above it where no file is in the place of any of them. -/
theorem exists_makeAbove (steps : List String)
    (hfiles : ∀ parent : Path, parent <+: steps.reverse →
      ∀ contents, node? parent.place files ≠ some (.file contents)) :
    ∃ made, makeAbove {} steps files = (made, .ok ()) ∧
      follow {} made steps.reverse [] = .ok (Path.place steps.reverse) ∧
      HasDirectory (Path.place steps.reverse) made := by
  induction steps with
  | nil => exact ⟨files, rfl, rfl, files, rfl⟩
  | cons step steps ih =>
      have hplace : Path.place (step :: steps).reverse = (Path.place steps.reverse).after step := by
        rw [Path.place, List.reverse_cons, List.foldl_append]
        rfl
      have hstep : ∀ contents,
          node? ((Path.place steps.reverse).after step) files ≠ some (.file contents) := by
        rw [← hplace]
        exact hfiles _ (List.prefix_refl _)
      rw [hplace]
      rw [List.reverse_cons] at hfiles ⊢
      rcases follow_of_no_file hfiles with herror | ⟨place, hfollow⟩
      · have hentry : makeEntry (steps.reverse ++ [step]) files {} = .error .notFound := by
          rw [makeEntry, locate, if_neg (by simp), herror]
        obtain ⟨made, hmade, hfollow, hdirectory⟩ :=
          ih fun parent hparent => hfiles parent (hparent.trans (List.prefix_append _ _))
        have hnew : ∀ contents,
            node? ((Path.place steps.reverse).after step) made ≠ some (.file contents) := by
          intro contents hfile
          have hmakes := makeAbove_makes steps files {}
          rw [hmade] at hmakes
          exact hstep contents (node?_file_of_makes hmakes hfile)
        obtain ⟨-, later, hensure, hlater⟩ := exists_ensureEntry hfollow hdirectory hnew
        refine ⟨later, ?_, hlater⟩
        rw [makeAbove, List.reverse_cons, hentry]
        dsimp only
        rw [hmade]
        exact hensure
      · obtain ⟨middle, hmiddle, hlast⟩ := follow_append_eq_ok_iff.1 hfollow
        have heq : middle = Path.place steps.reverse := follow_eq_foldl hmiddle
        rw [heq] at hmiddle hlast
        obtain ⟨hentry, made, hensure, hmade⟩ :=
          exists_ensureEntry hmiddle (hasDirectory_of_follow_cons hlast) hstep
        refine ⟨made, ?_, hmade⟩
        rw [makeAbove, List.reverse_cons]
        split
        · next hnotFound => exact absurd hnotFound hentry
        · exact hensure

end Files

end TalkingCalculator
