import AccelFirmware.Project.DeviceFile
import AccelFirmware.Proofs.Outcome

/-!
# What is written to a tree

A text goes to one place, and no file changes where another path leads. So the text of a file is read back unless a later path
leads to the same place.
-/

namespace AccelFirmware

namespace FileTree

variable {t t' : FileTree} {working p q r : Place} {step : String} {steps : List String} {path text : String}

/-! ## Entries -/

@[simp] theorem get?_nil (t : FileTree) : t.get? [] = some .directory := if_pos rfl

theorem ne_nil_of_hasDirectory (h : t.hasDirectory p = false) : p ≠ [] := by
  rintro rfl
  simp [hasDirectory] at h

theorem lookup_filter_ne {entries : List (Place × Node)} (h : q ≠ p) :
    (entries.filter (·.1 ≠ p)).lookup q = entries.lookup q := by
  induction entries with
  | nil => rfl
  | cons entry entries ih =>
    by_cases hplace : entry.1 = p
    · have hother : (q == entry.1) = false := by simpa [hplace] using h
      rw [List.filter_cons_of_neg (by simpa using hplace), List.lookup_cons, hother, ih]
    · rw [List.filter_cons_of_pos (by simpa using hplace), List.lookup_cons, List.lookup_cons, ih]

theorem get?_put (h : p ≠ []) (n : Node) : (t.put p n).get? q = if q = p then some n else t.get? q := by
  by_cases hq : q = p
  · subst hq
    simp [get?, put, h]
  · by_cases hnil : q = []
    · simp [get?, hnil, Ne.symm h]
    · have hother : (q == p) = false := by simpa using hq
      rw [get?, if_neg hnil, put, List.lookup_cons, hother, lookup_filter_ne hq, if_neg hq, get?, if_neg hnil]

/-! ## Following -/

/-- One step of a path leads from a directory to a place. -/
inductive Leads (t : FileTree) (q : Place) : String → Place → Prop where
  | stay : t.Leads q "." q
  | leave : t.Leads q ".." q.dropLast
  | enter {step : String} (hdots : isDots step = false) (hlength : step.utf8ByteSize ≤ maxName)
      (hthere : (t.get? (q ++ [step])).isSome = true) : t.Leads q step (q ++ [step])

theorem follow_cons_eq_ok : t.follow q (step :: steps) = .ok r ↔
    t.hasDirectory q = true ∧ ∃ p, t.Leads q step p ∧ t.follow p steps = .ok r := by
  rw [follow]
  constructor
  · intro h
    split at h
    · rename_i hdirectory
      refine ⟨hdirectory, ?_⟩
      split at h
      · rename_i hstay
        exact ⟨q, hstay ▸ .stay, h⟩
      split at h
      · rename_i hleave
        exact ⟨q.dropLast, hleave ▸ .leave, h⟩
      split at h
      · cases h
      · rename_i hstay hleave hlength
        split at h
        · rename_i hthere
          exact ⟨q ++ [step], .enter (by simp [isDots, hstay, hleave]) (Nat.le_of_not_lt hlength) hthere, h⟩
        · cases h
    · cases h
  · rintro ⟨hdirectory, p, hleads, h⟩
    rw [if_pos hdirectory]
    cases hleads with
    | stay => exact h
    | leave => exact h
    | enter hdots hlength hthere =>
      obtain ⟨hstay, hleave⟩ : step ≠ "." ∧ step ≠ ".." := by simpa [isDots] using hdots
      rw [if_neg hstay, if_neg hleave, if_neg (Nat.not_lt_of_le hlength), if_pos hthere]
      exact h

theorem follow_append_eq_ok {more : List String} : t.follow q (steps ++ more) = .ok r ↔
    ∃ p, t.follow q steps = .ok p ∧ t.follow p more = .ok r := by
  induction steps generalizing q with
  | nil => simp [follow]
  | cons step steps ih =>
    simp only [List.cons_append, follow_cons_eq_ok, ih]
    constructor
    · rintro ⟨hdirectory, next, hleads, p, hp, hr⟩
      exact ⟨p, ⟨hdirectory, next, hleads, hp⟩, hr⟩
    · rintro ⟨p, ⟨hdirectory, next, hleads, hp⟩, hr⟩
      exact ⟨hdirectory, next, hleads, p, hp, hr⟩

/-- A path that goes through still does where there is more, the same directories included. -/
theorem follow_mono (hdirectory : ∀ p, t.hasDirectory p = true → t'.hasDirectory p = true)
    (hthere : ∀ p, (t.get? p).isSome = true → (t'.get? p).isSome = true) (h : t.follow q steps = .ok r) :
    t'.follow q steps = .ok r := by
  induction steps generalizing q with
  | nil => exact h
  | cons step steps ih =>
    obtain ⟨hq, p, hleads, hp⟩ := follow_cons_eq_ok.1 h
    refine follow_cons_eq_ok.2 ⟨hdirectory q hq, p, ?_, ih hp⟩
    cases hleads with
    | stay => exact .stay
    | leave => exact .leave
    | enter hdots hlength hsome => exact .enter hdots hlength (hthere _ hsome)

theorem leads_stay (h : t.Leads q "." p) : p = q := by
  generalize hstep : "." = step at h
  cases h with
  | stay => rfl
  | leave => exact absurd hstep (by decide)
  | enter hdots _ _ =>
    subst hstep
    cases hdots

/-- A path that ends in place leads to a directory. -/
theorem follow_stay (h : t.follow q (steps ++ ["."]) = .ok r) : t.follow q steps = .ok r ∧ t.hasDirectory r = true := by
  obtain ⟨place, hplace, hstay⟩ := follow_append_eq_ok.1 h
  obtain ⟨hdirectory, next, hleads, hend⟩ := follow_cons_eq_ok.1 hstay
  cases hend
  obtain rfl := leads_stay hleads
  exact ⟨hplace, hdirectory⟩

/-! ## Writing one text -/

theorem hasDirectory_put_file (h : t.hasDirectory p = false) (text : String) :
    (t.put p (.file text)).hasDirectory q = t.hasDirectory q := by
  by_cases hq : q = p
  · subst hq
    rw [h]
    simp [hasDirectory, get?_put (ne_nil_of_hasDirectory h)]
  · simp [hasDirectory, get?_put (ne_nil_of_hasDirectory h), hq]

/-- Where there is a new file, all paths lead where they did. -/
theorem follow_put_file (h : t.hasDirectory p = false) (text : String) (hr : t.follow q steps = .ok r) :
    (t.put p (.file text)).follow q steps = .ok r := by
  refine follow_mono (fun q hq => ?_) (fun q hq => ?_) hr
  · rw [hasDirectory_put_file h]
    exact hq
  · rw [get?_put (ne_nil_of_hasDirectory h)]
    split
    · rfl
    · exact hq

theorem locate_put_file (h : t.hasDirectory p = false) (text : String) (hq : t.locate working path = .ok q) :
    (t.put p (.file text)).locate working path = .ok q := by
  obtain ⟨r, hr, hfollow⟩ := bind_eq_ok.1 hq
  exact bind_eq_ok.2 ⟨r, hr, follow_put_file h text hfollow⟩

/-- The route of a path to a file, which ends in a name. -/
structure NamesFile (path last : String) : Prop where
  route : route path = .ok (.ofPath path)
  steps : (pathNames path).getLast? = some last
  dots : isDots last = false
  slash : endsInSlash path = false
  short : last.utf8ByteSize ≤ maxName

theorem route_eq_ok {r : Route} (h : route path = .ok r) : r = .ofPath path := by
  simp only [route] at h
  (repeat' split at h) <;> simp_all

theorem writable_eq_ok (h : t.writable working path = .ok p) : ∃ directory last, p = directory ++ [last] ∧
    NamesFile path last ∧ t.directoryOf working (.ofPath path) = .ok directory ∧ t.hasDirectory p = false := by
  obtain ⟨r, hr, h⟩ := bind_eq_ok.1 h
  obtain rfl := route_eq_ok hr
  split at h
  · cases h
  · rename_i last hlast
    obtain ⟨directory, hdirectory, h⟩ := bind_eq_ok.1 h
    split at h
    · cases h
    split at h
    · cases h
    split at h
    · cases h
    · rename_i hname hlength hnew
      cases h
      obtain ⟨hdots, hslash⟩ : isDots last = false ∧ endsInSlash path = false := by simpa [Route.ofPath] using hname
      exact ⟨directory, last, rfl, ⟨hr, hlast, hdots, hslash, Nat.le_of_not_lt hlength⟩, hdirectory, by simpa using hnew⟩

/-- A text that is written is at the place that its path leads to, which ends in the last name of the path. -/
theorem writeText_eq_ok (h : t.writeText working path text = .ok t') : ∃ p last, t.hasDirectory p = false ∧
    t' = t.put p (.file text) ∧ t'.locate working path = .ok p ∧ NamesFile path last ∧ p.getLast? = some last := by
  obtain ⟨p, hp, ht'⟩ := bind_eq_ok.1 h
  cases ht'
  obtain ⟨directory, last, rfl, hnames, hdirectory, hnew⟩ := writable_eq_ok hp
  refine ⟨directory ++ [last], last, hnew, rfl, bind_eq_ok.2 ⟨_, hnames.route, ?_⟩, hnames, by simp⟩
  have hslash : (Route.ofPath path).slash = false := hnames.slash
  have hsteps : (Route.ofPath path).steps = (Route.ofPath path).steps.dropLast ++ [last] :=
    (List.dropLast_append_getLast? last hnames.steps).symm
  rw [hslash, hsteps]
  -- The last name is that of an entry in the directory that the other names lead to.
  obtain ⟨hplace, hthere⟩ := follow_stay hdirectory
  have hentry : ((t.put (directory ++ [last]) (.file text)).get? (directory ++ [last])).isSome = true := by
    rw [get?_put (ne_nil_of_hasDirectory hnew), if_pos rfl]
    rfl
  have hlast : (t.put (directory ++ [last]) (.file text)).follow directory [last] = .ok (directory ++ [last]) :=
    follow_cons_eq_ok.2 ⟨by rwa [hasDirectory_put_file hnew], _, .enter hnames.dots hnames.short hentry, rfl⟩
  simpa using follow_append_eq_ok.2 ⟨directory, follow_put_file hnew text hplace, hlast⟩

theorem readText_of_file (hp : t.locate working path = .ok p) (ht : t.get? p = some (.file text)) :
    t.readText working path = .ok text := by
  rw [readText, bind_eq_ok]
  exact ⟨p, hp, by rw [ht]; rfl⟩

/-! ## Writing several texts -/

/-- Writes texts in order, each to its path. -/
def writeTexts (t : FileTree) (working : Place) : List (String × String) → Except FileError FileTree
  | [] => .ok t
  | (path, text) :: files => do (← t.writeText working path text).writeTexts working files

variable {files before after : List (String × String)}

theorem writeTexts_append_eq_ok {more : List (String × String)} : t.writeTexts working (files ++ more) = .ok t' ↔
    ∃ between, t.writeTexts working files = .ok between ∧ between.writeTexts working more = .ok t' := by
  induction files generalizing t with
  | nil => simp [writeTexts]
  | cons file files ih =>
    simp only [List.cons_append, writeTexts, bind_eq_ok, ih]
    constructor
    · rintro ⟨next, hnext, between, hbetween, hmore⟩
      exact ⟨between, ⟨next, hnext, hbetween⟩, hmore⟩
    · rintro ⟨between, ⟨next, hnext, hbetween⟩, hmore⟩
      exact ⟨next, hnext, between, hbetween, hmore⟩

theorem locate_writeTexts (h : t.writeTexts working files = .ok t') (hp : t.locate working path = .ok p) :
    t'.locate working path = .ok p := by
  induction files generalizing t with
  | nil =>
    cases h
    exact hp
  | cons file files ih =>
    obtain ⟨next, hnext, hrest⟩ := bind_eq_ok.1 h
    obtain ⟨q, last, hq, rfl, -⟩ := writeText_eq_ok hnext
    exact ih hrest (locate_put_file hq file.2 hp)

/-- A file stays as it is while texts are written to other places. -/
theorem get?_writeTexts (h : t.writeTexts working files = .ok t') (ht : t.get? p = some (.file text))
    (hother : ∀ file ∈ files, t'.locate working file.1 ≠ .ok p) : t'.get? p = some (.file text) := by
  induction files generalizing t with
  | nil =>
    cases h
    exact ht
  | cons file files ih =>
    obtain ⟨next, hnext, hrest⟩ := bind_eq_ok.1 h
    obtain ⟨hfirst, hothers⟩ := List.forall_mem_cons.1 hother
    obtain ⟨q, last, hq, rfl, hlocate, -⟩ := writeText_eq_ok hnext
    have hne : p ≠ q := by
      rintro rfl
      exact hfirst (locate_writeTexts hrest hlocate)
    refine ih hrest ?_ hothers
    rw [get?_put (ne_nil_of_hasDirectory hq), if_neg hne]
    exact ht

/-- Every text has its place, and is read back where no later one has the same. -/
theorem readText_writeTexts (h : t.writeTexts working (before ++ (path, text) :: after) = .ok t') :
    ∃ p last, t'.locate working path = .ok p ∧ NamesFile path last ∧ p.getLast? = some last ∧
      ((∀ file ∈ after, t'.locate working file.1 ≠ .ok p) → t'.readText working path = .ok text) := by
  obtain ⟨between, -, hrest⟩ := writeTexts_append_eq_ok.1 h
  obtain ⟨next, hnext, hafter⟩ := bind_eq_ok.1 hrest
  obtain ⟨p, last, hp, rfl, hlocate, hnames, hlast⟩ := writeText_eq_ok hnext
  have hplace := locate_writeTexts hafter hlocate
  refine ⟨p, last, hplace, hnames, hlast, fun hother => readText_of_file hplace (get?_writeTexts hafter ?_ hother)⟩
  rw [get?_put (ne_nil_of_hasDirectory hp), if_pos rfl]

/-- All texts are read back just when no two of them lie at one place, if texts at one place differ. -/
theorem readText_all_iff (h : t.writeTexts working files = .ok t')
    (hdiffer : files.Pairwise fun a b => t'.locate working a.1 = t'.locate working b.1 → a.2 ≠ b.2) :
    (∀ file ∈ files, t'.readText working file.1 = .ok file.2) ↔
      (files.map fun file => t'.locate working file.1).Nodup := by
  rw [List.Nodup, List.pairwise_map]
  constructor
  · intro hall
    refine hdiffer.imp_of_mem fun {a b} ha hb hne hsame => hne hsame ?_
    have hread : t'.readText working a.1 = t'.readText working b.1 := by rw [readText, hsame, readText]
    rw [hall a ha, hall b hb] at hread
    exact Except.ok.inj hread
  · rintro hplaces ⟨path, text⟩ hfile
    obtain ⟨before, after, rfl⟩ := List.append_of_mem hfile
    obtain ⟨p, -, hp, -, -, hread⟩ := readText_writeTexts h
    refine hread fun file hlater hsame => ?_
    have hapart := (List.pairwise_cons.1 (List.pairwise_append.1 hplaces).2.1).1 file hlater
    exact hapart (hp.trans hsame.symm)

end FileTree

/-! ## Tasks in a session -/

/-- What an operation comes to, and the world that it leaves. -/
def Session.runIn {α : Type} (operation : Session α) (w : World) : α × World := operation w

namespace Task

/-- What a task comes to in a session, and the world that it leaves. -/
def runIn {α : Type} (task : Task Session α) (w : World) : Except CommandError α × World := Session.runIn task.run w

variable {α β : Type} {w w' : World}

theorem runIn_pure (a : α) (w : World) : runIn (pure a) w = (.ok a, w) := rfl

theorem runIn_bind (task : Task Session α) (next : α → Task Session β) (w : World) :
    runIn (task >>= next) w =
      match runIn task w with
      | (.ok a, between) => runIn (next a) between
      | (.error e, between) => (.error e, between) := by
  simp only [runIn, Session.runIn, ExceptT.run, bind, ExceptT.bind, ExceptT.mk, StateT.bind, ExceptT.bindCont]
  rcases task w with ⟨error | a, between⟩ <;> rfl

theorem runIn_bind_eq_ok {task : Task Session α} {next : α → Task Session β} {b : β} :
    runIn (task >>= next) w = (.ok b, w') ↔
      ∃ a between, runIn task w = (.ok a, between) ∧ runIn (next a) between = (.ok b, w') := by
  rw [runIn_bind]
  rcases runIn task w with ⟨error | a, between⟩
  · simp
  · simp

theorem runIn_attempt (operation : Session (Except FileError α)) (failure : FileError → CommandError) (w : World) :
    runIn (attempt operation failure) w =
      match Session.runIn operation w with
      | (.ok a, between) => (.ok a, between)
      | (.error e, between) => (.error (failure e), between) := by
  simp only [runIn, Session.runIn, attempt, ExceptT.run_mk, bind, StateT.bind]
  rcases operation w with ⟨error | a, between⟩ <;> rfl

theorem runIn_makeDirectories_eq_ok {path : String} {failure : FileError → CommandError} {u : Unit} :
    runIn (attempt (Shell.makeDirectories path) failure) w = (.ok u, w') ↔
      ∃ files, w.files.makeDirectories w.working path = (.ok (), files) ∧ w' = { w with files } := by
  have hmake : Session.runIn (Shell.makeDirectories path) w =
      ((w.files.makeDirectories w.working path).1,
        { w with files := (w.files.makeDirectories w.working path).2 }) := rfl
  rw [runIn_attempt, hmake]
  rcases w.files.makeDirectories w.working path with ⟨error | made, files⟩
  · simp
  · simp [eq_comm]

theorem runIn_writeText_eq_ok {path text : String} {failure : FileError → CommandError} {u : Unit} :
    runIn (attempt (Shell.writeText path text) failure) w = (.ok u, w') ↔
      ∃ files, w.files.writeText w.working path text = .ok files ∧ w' = { w with files } := by
  rw [runIn_attempt]
  simp only [Session.runIn, Shell.writeText]
  cases w.files.writeText w.working path text with
  | error e => simp
  | ok files => simp [eq_comm]

theorem runIn_writeTexts_eq_ok {texts : List (String × String)} {failure : FileError → CommandError} {u : Unit} :
    runIn (texts.forM fun (path, text) => attempt (Shell.writeText path text) failure) w = (.ok u, w') ↔
      ∃ files, w.files.writeTexts w.working texts = .ok files ∧ w' = { w with files } := by
  induction texts generalizing w with
  | nil => simp [runIn_pure, FileTree.writeTexts, eq_comm]
  | cons entry texts ih =>
    rw [List.forM, runIn_bind_eq_ok]
    simp only [runIn_writeText_eq_ok, ih, FileTree.writeTexts, bind_eq_ok]
    constructor
    · rintro ⟨_, _, ⟨next, hnext, rfl⟩, files, hfiles, rfl⟩
      exact ⟨files, ⟨next, hnext, hfiles⟩, rfl⟩
    · rintro ⟨files, ⟨next, hnext, hfiles⟩, rfl⟩
      exact ⟨(), _, ⟨next, hnext, rfl⟩, files, hfiles, rfl⟩

end Task

end AccelFirmware
