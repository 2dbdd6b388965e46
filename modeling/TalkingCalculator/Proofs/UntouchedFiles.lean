import TalkingCalculator.Proofs.SavedSettings

namespace TalkingCalculator

/-- No step is taken from one directory. -/
def Refusals.closed (directory : Place) : Refusals where
  passage place _ :=
    if place = directory then some (.refused "Permission denied (os error 13)") else none

namespace Files

variable {files made : Files} {place here more : Place} {path parent : Path} {node : Node}
  {refusals : Refusals}

theorem find?_of_refusals (h : find? path files refusals = some node) :
    find? path files = some node := by
  obtain ⟨place, hplace, hnode⟩ := find?_eq_some_iff.1 h
  exact find?_eq_some_iff.2 ⟨place, locate_of_refusals hplace, hnode⟩

theorem find?_refused_cases (h : find? path files = some node) (refusals : Refusals) :
    find? path files refusals = some node ∨ ∃ cause, locate path files refusals = .error cause := by
  obtain ⟨place, hplace, hnode⟩ := find?_eq_some_iff.1 h
  cases hrefused : locate path files refusals with
  | error cause => exact .inr ⟨cause, rfl⟩
  | ok other =>
      obtain rfl := Except.ok.inj ((locate_of_refusals hrefused).symm.trans hplace)
      exact .inl (find?_eq_some_iff.2 ⟨other, hrefused, hnode⟩)

theorem IsKeptIn.hasDirectory_of_later (h : files.IsKeptIn made) (hnode : node? place files ≠ none)
    (hmade : HasDirectory place made) : HasDirectory place files := by
  cases hplace : node? place files with
  | none => exact absurd hplace hnode
  | some node =>
      cases node with
      | file contents => exact absurd hmade (not_hasDirectory_of_file (h.node?_file hplace))
      | directory entries => exact ⟨entries, hplace⟩

theorem foldl_after_of_forward (hback : ".." ∉ path) (here : Place) :
    path.foldl Place.after here = here ++ path.filter Path.moves := by
  induction path generalizing here with
  | nil => exact (List.append_nil here).symm
  | cons step path ih =>
      rw [List.mem_cons, not_or] at hback
      rw [List.foldl_cons, ih hback.2]
      cases hmoves : Path.moves step with
      | true =>
          have hstep : ¬ (step = "" ∨ step = ".") := by simpa [Path.moves] using hmoves
          rw [Place.after, if_neg hstep, if_neg (Ne.symm hback.1), List.filter_cons_of_pos hmoves,
            List.append_assoc, List.singleton_append]
      | false =>
          rw [after_of_not_moves hmoves,
            List.filter_cons_of_neg (by rw [hmoves]; exact Bool.false_ne_true)]

/-- Without steps back, new directories do not open a way to what was there before. -/
theorem follow_of_kept (hback : ".." ∉ path) (hkept : files.IsKeptIn made)
    (h : follow refusals made path here = .ok place) (hplace : node? place files ≠ none) :
    follow refusals files path here = .ok place := by
  induction path generalizing here with
  | nil => exact h
  | cons step path ih =>
      obtain ⟨hhere, hpassage, hpath⟩ := follow_cons_eq_ok_iff.1 h
      have hnode : node? here files ≠ none := by
        intro hnone
        rw [follow_eq_foldl h, foldl_after_of_forward hback, node?, Node.at?_append, ← node?,
          hnone] at hplace
        exact hplace rfl
      exact follow_cons_eq_ok_iff.2 ⟨hkept.hasDirectory_of_later hnode hhere, hpassage,
        ih (fun hmem => hback (List.mem_cons_of_mem step hmem)) hpath⟩

theorem find?_ne_none_of_kept (hback : ".." ∉ path) (hkept : files.IsKeptIn made)
    (h : locate path made refusals = .ok place) (hplace : node? place files ≠ none) :
    find? path files refusals ≠ none := by
  obtain ⟨hne, hfollow⟩ := locate_eq_ok_iff.1 h
  rw [Ne, find?_eq_none_iff]
  exact fun hnone => hplace (hnone place
    (locate_eq_ok_iff.2 ⟨hne, follow_of_kept hback hkept hfollow hplace⟩))

theorem find?_makeDirectory_parent (hback : ".." ∉ path)
    (h : find? path files refusals = none) :
    find? path (makeDirectory path.parent files refusals).1 refusals = none := by
  have hmakes := makeDirectory_makes path.parent files refusals
  rw [find?_eq_none_iff]
  intro place hplace
  by_contra hnode
  refine find?_ne_none_of_kept hback (isKeptIn_of_makes hmakes) hplace ?_ h
  obtain rfl : place = path.place := follow_eq_foldl (locate_eq_ok_iff.1 hplace).2
  have hplace : path.place = path.filter Path.moves := foldl_after_of_forward hback []
  by_cases hnil : path.place = []
  · rw [hnil]
    exact nofun
  · have hshown : shown? path.place (makeDirectory path.parent files refusals).1 =
        shown? path.place files := by
      refine shown?_of_makes hmakes fun parent hparent heq => ?_
      have hforward : ".." ∉ parent := fun hmem =>
        hback (List.mem_of_mem_filter ((hparent.trans (List.dropLast_prefix _)).subset hmem))
      have hlength : parent.place.length ≤ path.place.length - 1 := by
        rw [Path.place, foldl_after_of_forward hforward, hplace]
        refine (List.length_filter_le Path.moves parent).trans ?_
        rw [← List.length_dropLast]
        exact hparent.length_le
      have hpos : 0 < path.place.length := List.length_pos_iff.2 hnil
      rw [heq] at hlength
      omega
    intro hnone
    rw [shown?, shown?, hnone, Option.map_none, Option.map_eq_none_iff] at hshown
    exact hnode hshown

/-- A step back out of a missing directory leads nowhere until that directory is made. -/
example :
    find? ["new", "..", "notes"] [("notes", .file ByteArray.empty)] = none ∧
      find? ["new", "..", "notes"]
        (makeDirectory ["new", ".."] [("notes", .file ByteArray.empty)]).1 =
        some (.file ByteArray.empty) :=
  ⟨rfl, rfl⟩

end Files

namespace Settings

open Files

variable {s : Settings} {path : Path} {files saved : Files} {text : String} {refusals : Refusals}

theorem isFinite_defaultRate : Single.IsFinite default.rate := by
  decide +kernel

theorem exists_defaultText : ∃ text, default.text? = some text ∧ ofText? text = some default :=
  exists_text?_eq isFinite_defaultRate nofun

/-- Loads the default settings wherever the system does not refuse to read them, and changes
nothing. -/
def LoadsDefaults (path : Path) (saved : Files) : Prop :=
  load path saved = (saved, .ok default) ∧
    ∀ refusals, load path saved refusals = (saved, .ok default) ∨
      ∃ cause, load path saved refusals = (saved, .error (.access path cause))

theorem save_cases (htext : s.text? = some text) (path : Path) (files : Files)
    (refusals : Refusals) :
    (∃ cause, s.save path files refusals =
        ((makeDirectory path.parent files refusals).1, .error (.access path cause))) ∨
      ∃ place written result,
        locate path (makeDirectory path.parent files refusals).1 refusals = .ok place ∧
        ¬ HasDirectory place (makeDirectory path.parent files refusals).1 ∧
        s.save path files refusals =
          (put (.file written) place (makeDirectory path.parent files refusals).1, result) ∧
        ((∃ cause, result = .error (.access path cause)) ∨
          result = .ok () ∧ written = text.toUTF8) := by
  rw [save]
  rcases makeDirectory path.parent files refusals with ⟨made, cause | _⟩
  · exact .inl ⟨cause, rfl⟩
  · dsimp only
    rw [htext]
    dsimp only
    rcases write_cases text.toUTF8 path made refusals with
      ⟨cause, hwrite⟩ | ⟨place, written, result, hplace, hdirectory, hwrite, hwritten⟩
    · rw [hwrite]
      exact .inl ⟨cause, rfl⟩
    · rw [hwrite]
      right
      cases result with
      | error cause => exact ⟨place, written, _, hplace, hdirectory, rfl, .inl ⟨cause, rfl⟩⟩
      | ok _ => exact ⟨place, written, _, hplace, hdirectory, rfl, .inr ⟨rfl, hwritten rfl⟩⟩

theorem load_of_find? {node : Node} (h : find? path files refusals = some node) :
    load path files refusals = (files, read path files refusals) := by
  rw [load, h]

/-- What loading from a path that leads to nothing leaves. -/
theorem load_cases (htext : default.text? = some text) (h : find? path files refusals = none) :
    (∃ cause, load path files refusals =
        ((makeDirectory path.parent files refusals).1, .error (.access path cause))) ∨
      ∃ place written loaded,
        locate path (makeDirectory path.parent files refusals).1 refusals = .ok place ∧
        ¬ HasDirectory place (makeDirectory path.parent files refusals).1 ∧
        load path files refusals =
          (put (.file written) place (makeDirectory path.parent files refusals).1, loaded) ∧
        ((∃ cause, loaded = .error (.access path cause)) ∨
          loaded = .ok default ∧ written = text.toUTF8) := by
  rw [load, h]
  rcases save_cases htext path files refusals with
    ⟨cause, hsave⟩ | ⟨place, written, result, hplace, hdirectory, hsave, hresult⟩
  · exact .inl ⟨cause, by rw [hsave]⟩
  · refine .inr ⟨place, written, result.map fun _ => default, hplace, hdirectory, ?_, ?_⟩
    · rw [hsave]
      cases result <;> rfl
    · rcases hresult with ⟨cause, rfl⟩ | ⟨rfl, hwritten⟩
      · exact .inl ⟨cause, rfl⟩
      · exact .inr ⟨rfl, hwritten⟩

theorem load_of_hidden {node : Node} (h : find? path files = some node)
    (hhidden : find? path files refusals = none) :
    ∃ cause, load path files refusals = (files, .error (.access path cause)) := by
  obtain ⟨text, htext, -⟩ := exists_defaultText
  have hmade := makeDirectory_parent_eq_self h refusals
  rcases load_cases htext hhidden with ⟨cause, hload⟩ | ⟨place, -, -, hplace, -⟩
  · exact ⟨cause, by rw [hload, hmade]⟩
  · rw [hmade] at hplace
    rcases find?_refused_cases h refusals with hfind | ⟨cause, herror⟩
    · rw [hhidden] at hfind
      cases hfind
    · rw [herror] at hplace
      cases hplace

theorem load_fst_of_find? {node : Node} (h : find? path files = some node) :
    (load path files refusals).1 = files := by
  cases hfind : find? path files refusals with
  | some node => rw [load_of_find? hfind]
  | none =>
      obtain ⟨cause, hload⟩ := load_of_hidden h hfind
      rw [hload]

theorem loadsDefaults_of_find? (hread : ofText? text = some default)
    (h : find? path saved = some (.file text.toUTF8)) : LoadsDefaults path saved := by
  refine ⟨by rw [load_of_find? h, read_of_find? hread h], fun refusals => ?_⟩
  cases hfind : find? path saved refusals with
  | none => exact .inr (load_of_hidden h hfind)
  | some node =>
      obtain rfl := Option.some.inj ((find?_of_refusals hfind).symm.trans h)
      rw [load_of_find? hfind, read]
      rcases readText_eq_ok_or_error hfind with htext | ⟨cause, herror⟩
      · rw [htext]
        dsimp only
        rw [hread]
        exact .inl rfl
      · rw [herror]
        exact .inr ⟨cause, rfl⟩

theorem load_of_absent (h : find? path files refusals = none) :
    (∃ later cause, load path files refusals = (later, .error (.access path cause))) ∨
      ∃ saved contents, load path files refusals = (saved, .ok default) ∧
        find? path saved refusals = some (.file contents) ∧ LoadsDefaults path saved := by
  obtain ⟨text, htext, hread⟩ := exists_defaultText
  rcases load_cases htext h with
    ⟨cause, hload⟩ | ⟨place, written, loaded, hplace, hdirectory, hload, hloaded⟩
  · exact .inl ⟨_, cause, hload⟩
  · rcases hloaded with ⟨cause, rfl⟩ | ⟨rfl, rfl⟩
    · exact .inl ⟨_, cause, hload⟩
    · obtain ⟨hagain, hnode⟩ := locate_put_file hplace hdirectory text.toUTF8
      have hfind := find?_eq_some_iff.2 ⟨place, hagain, hnode⟩
      exact .inr ⟨_, _, hload, hfind, loadsDefaults_of_find? hread (find?_of_refusals hfind)⟩

theorem exists_load_default_iff (h : find? path files = none) :
    (∃ saved, load path files = (saved, .ok default)) ↔ IsWritable path files := by
  obtain ⟨text, htext, -⟩ := exists_defaultText
  constructor
  · rintro ⟨saved, hsaved⟩
    rcases load_cases htext h with ⟨cause, hload⟩ | ⟨place, -, -, hplace, hdirectory, -⟩
    · rw [hload] at hsaved
      cases hsaved
    · exact isWritable_of_locate rfl hplace hdirectory
  · intro hpath
    obtain ⟨made, hmade, saved, hwrite, -⟩ := hpath.exists_write text.toUTF8
    refine ⟨saved, ?_⟩
    rw [load, h]
    dsimp only
    rw [save_of_write htext hmade hwrite]

theorem shown?_load_cases {place : Place} {shown : Option ByteArray}
    (hshown : shown? place files = some shown) :
    shown? place (load path files refusals).1 = some shown ∨
      find? path files refusals = none ∧
        locate path (makeDirectory path.parent files refusals).1 refusals = .ok place ∧
        locate path (load path files refusals).1 refusals = .ok place := by
  cases hfind : find? path files refusals with
  | some node =>
      rw [load_of_find? hfind]
      exact .inl hshown
  | none =>
      obtain ⟨text, htext, -⟩ := exists_defaultText
      have hkept := isKeptIn_of_makes (makeDirectory_makes path.parent files refusals)
        place shown hshown
      rcases load_cases htext hfind with
        ⟨cause, hload⟩ | ⟨target, written, loaded, htarget, hdirectory, hload, -⟩
      · rw [hload]
        exact .inl hkept
      · rw [hload]
        by_cases heq : place = target
        · subst heq
          exact .inr ⟨rfl, htarget, (locate_put_file htarget hdirectory written).1⟩
        · rw [shown?_put_of_ne (fun _ h => by cases h) hdirectory heq]
          exact .inl hkept

theorem isKeptIn_load (hback : ".." ∉ path) : files.IsKeptIn (load path files refusals).1 := by
  intro place shown hshown
  rcases shown?_load_cases hshown with hkept | ⟨hnone, hplace, -⟩
  · exact hkept
  · have hnode : node? place files ≠ none := by
      intro hnone
      rw [shown?, hnone] at hshown
      cases hshown
    have hmakes := makeDirectory_makes path.parent files refusals
    exact absurd hnone (find?_ne_none_of_kept hback (isKeptIn_of_makes hmakes) hplace hnode)

theorem save_fst_of_fontName (h : (s.save path files refusals).2 = .error .fontName) :
    (s.save path files refusals).1 = (makeDirectory path.parent files refusals).1 := by
  cases htext : s.text? with
  | some text =>
      rcases save_cases htext path files refusals with
        ⟨cause, hsave⟩ | ⟨place, written, result, _, _, hsave, ⟨cause, rfl⟩ | ⟨rfl, -⟩⟩ <;>
        rw [hsave] at h <;> cases h
  | none =>
      rw [save]
      rcases makeDirectory path.parent files refusals with ⟨made, cause | _⟩
      · rfl
      · dsimp only
        rw [htext]

theorem files_of_save_fontName (h : (s.save path files refusals).2 = .error .fontName) :
    files.IsKeptIn (s.save path files refusals).1 ∧
      ((∃ node, find? path files = some node) → (s.save path files refusals).1 = files) ∧
      (".." ∉ path → find? path (s.save path files refusals).1 refusals =
        find? path files refusals) := by
  rw [save_fst_of_fontName h]
  refine ⟨isKeptIn_of_makes (makeDirectory_makes path.parent files refusals), ?_, fun hback => ?_⟩
  · rintro ⟨node, hnode⟩
    exact makeDirectory_parent_eq_self hnode refusals
  · cases hfind : find? path files refusals with
    | some node => rw [makeDirectory_parent_eq_self (find?_of_refusals hfind) refusals, hfind]
    | none => exact find?_makeDirectory_parent hback hfind

/-- Loading from a path where something is changes nothing, whether or not the system lets the path
be followed. From a path that leads to nothing it loads the default settings and saves them for the
next loading, or the access fails; where nothing is refused it fails exactly on paths that cannot be
written to. A path through a missing directory and back leads to nothing until that directory is
made, and what it leads to then is overwritten. Everything else is kept, and so is everything when
settings cannot be saved because they have no text. -/
theorem loading_damages_nothing (path : Path) (files : Files) (refusals : Refusals) :
    ((∃ node, find? path files = some node) → (load path files refusals).1 = files) ∧
      (∀ node, find? path files refusals = some node →
        load path files refusals = (files, read path files refusals)) ∧
      (find? path files refusals = none →
        (∃ later cause, load path files refusals = (later, .error (.access path cause))) ∨
          ∃ saved contents, load path files refusals = (saved, .ok default) ∧
            find? path saved refusals = some (.file contents) ∧ LoadsDefaults path saved) ∧
      (find? path files = none →
        ((∃ saved, load path files = (saved, .ok default)) ↔ IsWritable path files)) ∧
      (∀ place shown, shown? place files = some shown →
        shown? place (load path files refusals).1 = some shown ∨
          find? path files refusals = none ∧
            locate path (load path files refusals).1 refusals = .ok place) ∧
      (".." ∉ path → files.IsKeptIn (load path files refusals).1) ∧
      ∀ s : Settings, (s.save path files refusals).2 = .error .fontName →
        files.IsKeptIn (s.save path files refusals).1 ∧
          ((∃ node, find? path files = some node) → (s.save path files refusals).1 = files) ∧
          (".." ∉ path → find? path (s.save path files refusals).1 refusals =
            find? path files refusals) := by
  refine ⟨?_, fun node => load_of_find?, load_of_absent, exists_load_default_iff, ?_,
    isKeptIn_load, fun s => files_of_save_fontName⟩
  · rintro ⟨node, hnode⟩
    exact load_fst_of_find? hnode
  · intro place shown hshown
    exact (shown?_load_cases hshown).imp_right fun ⟨hnone, _, hplace⟩ => ⟨hnone, hplace⟩

theorem loading_damages_nothing_missing :
    ∃ (files : Files) (refusals : Refusals) (s : Settings),
      files = [("home", .directory [("notes", .file "langue = 1".toUTF8)])] ∧
      refusals = .closed ["home"] ∧
      s = { default with font := some ⟨#[0xFF]⟩ } ∧
      find? ["home", "calculator", "settings"] files = none ∧
      IsWritable ["home", "calculator", "settings"] files ∧
      (∃ saved contents, load ["home", "calculator", "settings"] files = (saved, .ok default) ∧
        find? ["home", "calculator", "settings"] saved = some (.file contents) ∧
        LoadsDefaults ["home", "calculator", "settings"] saved) ∧
      shown? ["home", "notes"] (load ["home", "calculator", "settings"] files).1 =
        some (some "langue = 1".toUTF8) ∧
      find? ["home", "notes"] files refusals = none ∧
      (load ["home", "notes"] files refusals).1 = files ∧
      (s.save ["home", "notes"] files).2 = .error .fontName ∧
      (s.save ["home", "notes"] files).1 = files := by
  obtain ⟨files, hfiles⟩ : ∃ files : Files,
      files = [("home", .directory [("notes", .file "langue = 1".toUTF8)])] := ⟨_, rfl⟩
  obtain ⟨refusals, hrefusals⟩ : ∃ refusals : Refusals, refusals = .closed ["home"] := ⟨_, rfl⟩
  obtain ⟨-, -, habsent, hwritable, -, hkept, -⟩ :=
    loading_damages_nothing ["home", "calculator", "settings"] files {}
  obtain ⟨hhidden, -⟩ := loading_damages_nothing ["home", "notes"] files refusals
  obtain ⟨-, -, -, -, -, -, hsave⟩ := loading_damages_nothing ["home", "notes"] files {}
  have hnotes : find? ["home", "notes"] files = some (.file "langue = 1".toUTF8) := by
    rw [hfiles]
    rfl
  have hfind : find? ["home", "calculator", "settings"] files = none := by
    rw [hfiles]
    rfl
  have hpath : IsWritable ["home", "calculator", "settings"] files := by
    rw [hfiles]
    exact isWritable_of_locate rfl rfl (not_hasDirectory_of_none rfl)
  have hloaded := (habsent hfind).resolve_left fun ⟨later, cause, herror⟩ => by
    obtain ⟨saved, hsaved⟩ := (hwritable hfind).2 hpath
    rw [hsaved] at herror
    cases herror
  have hshown : shown? ["home", "notes"] files = some (some "langue = 1".toUTF8) := by
    rw [hfiles]
    rfl
  have hfault : (Settings.save { default with font := some ⟨#[0xFF]⟩ } ["home", "notes"] files).2 =
      .error .fontName := by
    rw [hfiles]
    rfl
  exact ⟨files, refusals, _, hfiles, hrefusals, rfl, hfind, hpath, hloaded,
    hkept (by decide) _ _ hshown, by rw [hfiles, hrefusals]; rfl, hhidden ⟨_, hnotes⟩, hfault,
    (hsave _ hfault).2.1 ⟨_, hnotes⟩⟩

end Settings

end TalkingCalculator
