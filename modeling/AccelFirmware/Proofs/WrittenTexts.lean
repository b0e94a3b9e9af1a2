import AccelFirmware.Proofs.Directories
import AccelFirmware.Proofs.Sessions
import Mathlib.Data.List.TakeWhile

/-!
# Directories and texts in turn

Tasks make several directories and then write several texts, up to the first failure. Which texts can be written depends on the
directories alone, and what a place holds afterwards on the last text that is written to it.
-/

namespace AccelFirmware

namespace Route

/-- The place that a route leads to if all directories on the way are there. -/
def destination (r : Route) (working : Place) : Place := (r.origin working).walk r.steps

/-- The path of a place leads to it. -/
theorem destination_path {p : Place} (hp : ∀ name ∈ p, IsName name) (working : Place) : (ofPath p.path).destination working = p := by
  have habsolute : isAbsolute p.path = true := by simp [isAbsolute, toList_path]
  rw [destination, origin, ofPath, habsolute, if_pos rfl, pathNames_path hp, Place.walk_of_names fun name hname => (hp name hname).dots,
    List.nil_append]

theorem destination_joinPath {name : String} (hname : IsName name) (base : String) (working : Place) :
    (ofPath (joinPath base name)).destination working = (ofPath base).destination working ++ [name] := by
  rw [ofPath_joinPath base hname.slash hname.nonempty, destination, Place.walk_append, Place.walk_name hname.dots]
  rfl

/-- Without a step back, the places on the way are those around the end. -/
theorem OnWay.prefix_destination {r : Route} {working q : Place} (h : r.OnWay working q) (hleave : ".." ∉ r.steps) :
    q <+: r.destination working := by
  obtain ⟨steps, hsteps, rfl⟩ := h
  have hmoves : ".." ∉ r.moves := fun hmem => hleave (r.moves_subset hmem)
  have hsub : ".." ∉ steps := fun hmem => hmoves (hsteps.subset hmem)
  have hend : r.destination working = (r.origin working).walk r.moves := (Place.walk_moves _ _).symm
  rw [hend, Place.walk_of_no_leave hsub, Place.walk_of_no_leave hmoves]
  exact (List.prefix_append_right_inj _).2 (hsteps.filter _)

end Route

namespace FileTree

variable {t t' : FileTree} {working p q r : Place} {steps : List String} {path text name : String}
  {files : List (String × String)}

/-! ## Where texts can be written -/

/-- A new file is on no way to a directory. -/
theorem follow_put_file_iff (h : t.hasDirectory p = false) (text : String) :
    (t.put p (.file text)).follow q (steps ++ ["."]) = .ok r ↔ t.follow q (steps ++ ["."]) = .ok r := by
  refine ⟨fun hr => ?_, follow_put_file h text⟩
  induction steps generalizing q with
  | nil =>
    obtain ⟨hdirectory, next, hleads, hend⟩ := follow_cons_eq_ok.1 hr
    obtain rfl := leads_stay hleads
    rw [hasDirectory_put_file h] at hdirectory
    exact follow_cons_eq_ok.2 ⟨hdirectory, _, .stay, hend⟩
  | cons step steps ih =>
    obtain ⟨hdirectory, next, hleads, hmore⟩ := follow_cons_eq_ok.1 hr
    rw [hasDirectory_put_file h] at hdirectory
    refine follow_cons_eq_ok.2 ⟨hdirectory, next, ?_, ih hmore⟩
    cases hleads with
    | stay => exact .stay
    | leave => exact .leave
    | enter hdots hshort hthere =>
      -- The steps go on, so this one has entered a directory.
      have hnext : (t.put p (.file text)).hasDirectory (q ++ [step]) = true := by
        cases steps with
        | nil => exact (follow_cons_eq_ok.1 hmore).1
        | cons => exact (follow_cons_eq_ok.1 hmore).1
      rw [hasDirectory_put_file h] at hnext
      exact .enter hdots hshort (isSome_of_hasDirectory hnext)

theorem writable_eq_ok_iff : t.writable working path = .ok p ↔ ∃ directory last, p = directory ++ [last] ∧
    NamesFile path last ∧ t.directoryOf working (.ofPath path) = .ok directory ∧ t.hasDirectory p = false := by
  refine ⟨writable_eq_ok, ?_⟩
  rintro ⟨directory, last, rfl, hnames, hdirectory, hnew⟩
  have hlast : (Route.ofPath path).steps.getLast? = some last := hnames.steps
  have hslash : (Route.ofPath path).slash = false := hnames.slash
  refine bind_eq_ok.2 ⟨_, hnames.route, ?_⟩
  simp only [hlast, hdirectory, bind, Except.bind, hnames.dots, hslash, hnew, Bool.or_self, Bool.false_eq_true, if_false,
    Nat.not_lt_of_le hnames.short]
  rfl

/-- Texts can be written to the same places when one of them has been written. -/
theorem writable_put_file (h : t.hasDirectory q = false) (text : String) :
    (t.put q (.file text)).writable working path = .ok p ↔ t.writable working path = .ok p := by
  simp only [writable_eq_ok_iff, directoryOf, follow_put_file_iff h, hasDirectory_put_file h]

/-- A text that can be written goes where its path leads. -/
theorem writable_eq_destination (h : t.writable working path = .ok p) : p = (Route.ofPath path).destination working := by
  obtain ⟨directory, last, rfl, hnames, hdirectory, -⟩ := writable_eq_ok h
  have hsteps : (Route.ofPath path).steps.getLast? = some last := hnames.steps
  rw [Route.destination, ← List.dropLast_append_getLast? last hsteps, Place.walk_append, Place.walk_name hnames.dots,
    follow_eq_walk (follow_stay hdirectory).1]

theorem locate_eq_destination (h : t.locate working path = .ok p) : p = (Route.ofPath path).destination working := by
  obtain ⟨r, hr, hfollow⟩ := bind_eq_ok.1 h
  obtain rfl := route_eq_ok hr
  split at hfollow
  · rw [follow_eq_walk hfollow, Place.walk_append]
    rfl
  · rw [follow_eq_walk hfollow, List.append_nil]
    rfl

/-! ## What is written -/

/-- Whether a text can be written to a path, at a given place. -/
def writesTo (t : FileTree) (working q : Place) (path : String) : Bool :=
  match t.writable working path with
  | .ok p => p = q
  | .error _ => false

theorem writesTo_iff : t.writesTo working q path = true ↔ t.writable working path = .ok q := by
  rw [writesTo]
  cases t.writable working path <;> simp

/-- The last of several texts that goes to a place. -/
def lastText? (t : FileTree) (working : Place) (files : List (String × String)) (q : Place) : Option String :=
  (files.reverse.find? fun file => t.writesTo working q file.1).map (·.2)

theorem lastText?_cons (t : FileTree) (working : Place) (file : String × String) (files : List (String × String)) (q : Place) :
    t.lastText? working (file :: files) q =
      (t.lastText? working files q).or (if t.writesTo working q file.1 then some file.2 else none) := by
  rw [lastText?, List.reverse_cons, List.find?_append, lastText?]
  cases files.reverse.find? fun file => t.writesTo working q file.1 with
  | some other => rfl
  | none => cases hwrites : t.writesTo working q file.1 <;> simp [hwrites]

theorem lastText?_congr (h : ∀ path, t'.writable working path = .ok q ↔ t.writable working path = .ok q)
    (files : List (String × String)) : t'.lastText? working files q = t.lastText? working files q := by
  have hwrites (path : String) : t'.writesTo working q path = t.writesTo working q path := by
    rw [Bool.eq_iff_iff, writesTo_iff, writesTo_iff, h]
  simp only [lastText?, hwrites]

theorem lastText?_eq_some (h : t.lastText? working files q = some text) :
    ∃ path, (path, text) ∈ files ∧ t.writable working path = .ok q := by
  obtain ⟨file, hfind, rfl⟩ := Option.map_eq_some_iff.1 h
  have hwrites := List.find?_some hfind
  exact ⟨file.1, List.mem_reverse.1 (List.mem_of_find?_eq_some hfind), writesTo_iff.1 hwrites⟩

/-- A place holds the last text that was written to it, or what it held. -/
theorem get?_of_writeTexts (h : t.writeTexts working files = .ok t') (q : Place) :
    t'.get? q = ((t.lastText? working files q).map Node.file).or (t.get? q) := by
  induction files generalizing t with
  | nil =>
    cases h
    rfl
  | cons file files ih =>
    obtain ⟨next, hnext, hrest⟩ := bind_eq_ok.1 h
    obtain ⟨p, hp, hput⟩ := bind_eq_ok.1 hnext
    cases hput
    obtain ⟨-, -, -, -, -, hnew⟩ := writable_eq_ok hp
    have hwrites : t.writesTo working q file.1 = decide (p = q) := by rw [writesTo, hp]
    rw [ih hrest, lastText?_congr (fun _ => writable_put_file hnew file.2), lastText?_cons, hwrites, get?_put (ne_nil_of_hasDirectory hnew)]
    cases t.lastText? working files q with
    | some text => rfl
    | none => by_cases hq : p = q <;> simp [hq, eq_comm (a := q)]

theorem grows_writeTexts (h : t.writeTexts working files = .ok t') : t.Grows t' := by
  induction files generalizing t with
  | nil =>
    cases h
    exact .refl _
  | cons file files ih =>
    obtain ⟨next, hnext, hrest⟩ := bind_eq_ok.1 h
    obtain ⟨p, last, hnew, rfl, -⟩ := writeText_eq_ok hnext
    exact (grows_put (n := .file file.2) hnew nofun).trans (ih hrest)

theorem Sound.writeTexts (h : t.Sound) (hwrite : t.writeTexts working files = .ok t') : t'.Sound := by
  induction files generalizing t with
  | nil =>
    cases hwrite
    exact h
  | cons file files ih =>
    obtain ⟨next, hnext, hrest⟩ := bind_eq_ok.1 hwrite
    exact ih (h.writeText hnext) hrest

/-- Texts can be written to the same places when others have been written. -/
theorem writable_writeTexts (h : t.writeTexts working files = .ok t') :
    t'.writable working path = .ok p ↔ t.writable working path = .ok p := by
  induction files generalizing t with
  | nil =>
    cases h
    rfl
  | cons file files ih =>
    obtain ⟨next, hnext, hrest⟩ := bind_eq_ok.1 h
    obtain ⟨q, hq, hput⟩ := bind_eq_ok.1 hnext
    cases hput
    obtain ⟨-, -, -, -, -, hnew⟩ := writable_eq_ok hq
    rw [ih hrest, writable_put_file hnew]

/-- What can be written again is what has been written. -/
theorem writeTexts_ok_iff : (∃ t', t.writeTexts working files = .ok t') ↔ ∀ file ∈ files, ∃ p, t.writable working file.1 = .ok p := by
  induction files generalizing t with
  | nil => simp [writeTexts]
  | cons file files ih =>
    rw [List.forall_mem_cons]
    constructor
    · rintro ⟨t', h⟩
      obtain ⟨next, hnext, hrest⟩ := bind_eq_ok.1 h
      obtain ⟨q, hq, hput⟩ := bind_eq_ok.1 hnext
      cases hput
      obtain ⟨-, -, -, -, -, hnew⟩ := writable_eq_ok hq
      have hothers := ih.1 ⟨t', hrest⟩
      simp only [writable_put_file hnew] at hothers
      exact ⟨⟨q, hq⟩, hothers⟩
    · rintro ⟨⟨q, hq⟩, hothers⟩
      obtain ⟨-, -, -, -, -, hnew⟩ := writable_eq_ok hq
      obtain ⟨t', ht'⟩ := (@ih (t.put q (.file file.2))).2 (by simpa only [writable_put_file hnew] using hothers)
      exact ⟨t', bind_eq_ok.2 ⟨_, bind_eq_ok.2 ⟨q, hq, rfl⟩, ht'⟩⟩

/-- Writing the same texts once more changes nothing. -/
theorem writeTexts_again (h : t.writeTexts working files = .ok t') :
    ∃ t'', t'.writeTexts working files = .ok t'' ∧ ∀ q, t''.get? q = t'.get? q := by
  obtain ⟨t'', ht''⟩ : ∃ t'', t'.writeTexts working files = .ok t'' := by
    rw [writeTexts_ok_iff]
    simp only [writable_writeTexts h]
    exact writeTexts_ok_iff.1 ⟨t', h⟩
  refine ⟨t'', ht'', fun q => ?_⟩
  rw [get?_of_writeTexts ht'', lastText?_congr fun _ => writable_writeTexts h, get?_of_writeTexts h]
  cases t.lastText? working files q <;> rfl

/-! ## Up to the first failure -/

/-- Makes the directories of several paths, up to the first that cannot be made. -/
def makeAll (t : FileTree) (working : Place) : List String → Except FileError Unit × FileTree
  | [] => (.ok (), t)
  | path :: paths =>
      match t.makeDirectories working path with
      | (.ok (), made) => made.makeAll working paths
      | (.error e, made) => (.error e, made)

section
variable {paths : List String}

theorem furnishes_makeAll (t : FileTree) (working : Place) (paths : List String) : t.Furnishes (t.makeAll working paths).2
    fun q => ∃ path ∈ paths, (Route.ofPath path).OnWay working q := by
  induction paths generalizing t with
  | nil => exact fun _ => Or.inl rfl
  | cons path paths ih =>
    have hfirst : t.Furnishes (t.makeDirectories working path).2 fun q => ∃ other ∈ path :: paths, (Route.ofPath other).OnWay working q :=
      (furnishes_makeDirectories t working path).mono fun q hq => ⟨path, by simp, hq⟩
    rw [makeAll]
    rcases hmade : t.makeDirectories working path with ⟨error | done, made⟩
    · rwa [hmade] at hfirst
    · rw [hmade] at hfirst
      exact hfirst.trans ((ih made).mono fun q ⟨other, hother, hq⟩ => ⟨other, List.mem_cons_of_mem _ hother, hq⟩)

theorem Sound.makeAll (h : t.Sound) (working : Place) (paths : List String) : (t.makeAll working paths).2.Sound := by
  induction paths generalizing t with
  | nil => exact h
  | cons path paths ih =>
    have hfirst := h.makeDirectories working path
    rw [FileTree.makeAll]
    rcases hmade : t.makeDirectories working path with ⟨error | done, made⟩
    · rwa [hmade] at hfirst
    · rw [hmade] at hfirst
      exact ih hfirst

/-- Directories that have been made are there. -/
theorem endsInDirectory_makeAll (h : t.makeAll working paths = (.ok (), t')) (hpath : path ∈ paths) (hne : path ≠ "") :
    route path = .ok (.ofPath path) ∧ t'.endsInDirectory working (.ofPath path) = true := by
  induction paths generalizing t with
  | nil => cases hpath
  | cons first paths ih =>
    rw [makeAll] at h
    rcases hmade : t.makeDirectories working first with ⟨error | done, made⟩
    · rw [hmade] at h
      cases h
    · rw [hmade] at h
      rcases List.mem_cons.1 hpath with rfl | hlater
      · obtain ⟨hroute, hmakes⟩ := makeDirectories_eq_ok hmade hne
        have hrest := furnishes_makeAll made working paths
        rw [show made.makeAll working paths = (.ok (), t') from h] at hrest
        exact ⟨hroute, hrest.grows.endsInDirectory (endsInDirectory_makeRoute hmakes (Route.isEmpty_ofPath hne))⟩
      · exact ih h hlater

end

def isWritable (t : FileTree) (working : Place) (path : String) : Bool :=
  match t.writable working path with
  | .ok _ => true
  | .error _ => false

theorem isWritable_iff : t.isWritable working path = true ↔ ∃ p, t.writable working path = .ok p := by
  rw [isWritable]
  cases t.writable working path <;> simp

/-- The texts in front of the first that cannot be written. -/
def writableFront (t : FileTree) (working : Place) (files : List (String × String)) : List (String × String) :=
  files.takeWhile fun file => t.isWritable working file.1

theorem mem_writableFront {file : String × String} (h : file ∈ t.writableFront working files) :
    file ∈ files ∧ ∃ p, t.writable working file.1 = .ok p := by
  rw [writableFront] at h
  have hwritable : t.isWritable working file.1 = true := by simpa using List.mem_takeWhile_imp h
  exact ⟨List.takeWhile_subset _ h, isWritable_iff.1 hwritable⟩

theorem writableFront_put_file (h : t.hasDirectory p = false) (text : String) (files : List (String × String)) :
    (t.put p (.file text)).writableFront working files = t.writableFront working files := by
  have hwritable (path : String) : (t.put p (.file text)).isWritable working path = t.isWritable working path := by
    rw [Bool.eq_iff_iff, isWritable_iff, isWritable_iff]
    simp only [writable_put_file h]
  simp only [writableFront, hwritable]

end FileTree

namespace Task

variable {α : Type} {w : World}

/-- A task that makes directories in turn. -/
theorem runIn_makeAll (names : List α) (path : α → String) (failure : α → FileError → CommandError) (w : World) :
    ∃ result, runIn (names.forM fun name => attempt (Shell.makeDirectories (path name)) (failure name)) w =
        (result, { w with files := (w.files.makeAll w.working (names.map path)).2 }) ∧
      (result = .ok () ↔ (w.files.makeAll w.working (names.map path)).1 = .ok ()) := by
  induction names generalizing w with
  | nil => exact ⟨.ok (), rfl, by simp [FileTree.makeAll]⟩
  | cons name names ih =>
    have hmake : Session.runIn (Shell.makeDirectories (path name)) w =
        ((w.files.makeDirectories w.working (path name)).1,
          { w with files := (w.files.makeDirectories w.working (path name)).2 }) := rfl
    rw [List.forM, runIn_bind, runIn_attempt, hmake, List.map_cons, FileTree.makeAll]
    rcases w.files.makeDirectories w.working (path name) with ⟨error | done, made⟩
    · exact ⟨_, rfl, by simp⟩
    · exact ih { w with files := made }

/-- A task that writes texts in turn writes those in front of the first that cannot be written. -/
theorem runIn_writeAll (files : List (String × String)) (path : String → String) (failure : String → FileError → CommandError)
    (w : World) : ∃ result after,
      runIn (files.forM fun (name, text) => attempt (Shell.writeText (path name) text) (failure name)) w =
        (result, { w with files := after }) ∧
      w.files.writeTexts w.working (w.files.writableFront w.working (files.map fun (name, text) => (path name, text))) = .ok after ∧
      (result = .ok () ↔ w.files.writableFront w.working (files.map fun (name, text) => (path name, text)) =
        files.map fun (name, text) => (path name, text)) := by
  induction files generalizing w with
  | nil => exact ⟨.ok (), w.files, rfl, rfl, by simp [FileTree.writableFront]⟩
  | cons file files ih =>
    rw [List.forM, runIn_bind, runIn_attempt, Session.runIn_writeText, List.map_cons, FileTree.writableFront, List.takeWhile_cons]
    cases hplace : w.files.writable w.working (path file.1) with
    | error e =>
      have hfailed : w.files.writeText w.working (path file.1) file.2 = .error e := by
        rw [FileTree.writeText, hplace]
        rfl
      have hwritable : w.files.isWritable w.working (path file.1) = false := by rw [FileTree.isWritable, hplace]
      rw [hfailed, hwritable]
      exact ⟨.error (failure file.1 e), w.files, rfl, rfl, by simp⟩
    | ok p =>
      have hnext : w.files.writeText w.working (path file.1) file.2 = .ok (w.files.put p (.file file.2)) := by
        rw [FileTree.writeText, hplace]
        rfl
      have hwritable : w.files.isWritable w.working (path file.1) = true := by rw [FileTree.isWritable, hplace]
      obtain ⟨-, -, -, -, -, hnew⟩ := FileTree.writable_eq_ok hplace
      obtain ⟨result, after, hrun, hafter, hresult⟩ := ih { w with files := w.files.put p (.file file.2) }
      rw [FileTree.writableFront_put_file hnew] at hafter hresult
      rw [hnext, hwritable]
      refine ⟨result, after, hrun, bind_eq_ok.2 ⟨_, hnext, hafter⟩, hresult.trans ?_⟩
      simp [FileTree.writableFront]

end Task

end AccelFirmware
