import AccelFirmware.Proofs.FileTrees
import Mathlib.Data.List.Induction

/-!
# Where paths lead

A path that goes through leads where its steps say, whatever else is in the tree. A tree is sound if a file system can have it:
every entry has a possible name and lies in a directory. In a sound tree, what is at a place is found by the path of the place.
-/

namespace AccelFirmware

open FileTree (isDots maxName maxPath)

/-! ## Names -/

/-- A name that an entry of a directory can have. -/
structure IsName (name : String) : Prop where
  nonempty : name ≠ ""
  dots : isDots name = false
  slash : '/' ∉ name.toList
  nul : '\x00' ∉ name.toList
  short : name.utf8ByteSize ≤ maxName

theorem isName_iff {name : String} : IsName name ↔ name ≠ "" ∧ isDots name = false ∧ '/' ∉ name.toList ∧
    '\x00' ∉ name.toList ∧ name.utf8ByteSize ≤ maxName :=
  ⟨fun h => ⟨h.nonempty, h.dots, h.slash, h.nul, h.short⟩,
    fun ⟨hnonempty, hdots, hslash, hnul, hshort⟩ => ⟨hnonempty, hdots, hslash, hnul, hshort⟩⟩

instance (name : String) : Decidable (IsName name) := decidable_of_iff' _ isName_iff

theorem IsName.ne_dots {name : String} (h : IsName name) : name ≠ "." ∧ name ≠ ".." := by
  simpa [isDots] using h.dots

/-! ## Paths and their names -/

section
variable {base name path : String} {p : Place}

theorem pathNames_single (h : '/' ∉ name.toList) (hname : name ≠ "") : pathNames name = [name] := by
  simp [pathNames, List.splitOn_eq_singleton h, hname]

theorem pathNames_slash {front back : List Char} (h : path.toList = front ++ '/' :: back) :
    pathNames path = pathNames (String.ofList front) ++ pathNames (String.ofList back) := by
  simp [pathNames, h, List.splitOn_append_cons_self]

theorem of_mem_splitOn {letters piece : List Char} (h : piece ∈ letters.splitOn '/') : '/' ∉ piece ∧ piece ⊆ letters := by
  induction letters generalizing piece with
  | nil =>
    obtain rfl : piece = [] := by simpa using h
    simp
  | cons c letters ih =>
    rw [List.splitOn_cons_eq_if_modifyHead] at h
    split at h
    · rcases List.mem_cons.1 h with rfl | hmem
      · simp
      · exact ⟨(ih hmem).1, fun d hd => List.mem_cons_of_mem _ ((ih hmem).2 hd)⟩
    · rename_i hc
      obtain ⟨first, rest, hsplit⟩ := List.exists_cons_of_ne_nil (List.splitOn_ne_nil '/' letters)
      rw [hsplit] at h
      rcases List.mem_cons.1 h with rfl | hmem
      · obtain ⟨hslash, hsubset⟩ := ih (show first ∈ letters.splitOn '/' by simp [hsplit])
        exact ⟨List.not_mem_cons_of_ne_of_not_mem (fun hsame => hc (beq_iff_eq.2 hsame.symm)) hslash, List.cons_subset_cons c hsubset⟩
      · obtain ⟨hslash, hsubset⟩ := ih (show piece ∈ letters.splitOn '/' by simp [hsplit, hmem])
        exact ⟨hslash, fun d hd => List.mem_cons_of_mem _ (hsubset hd)⟩

/-- The letters of a name on a path are letters of the path, other than a slash. -/
theorem of_mem_pathNames (h : name ∈ pathNames path) : name ≠ "" ∧ '/' ∉ name.toList ∧ name.toList ⊆ path.toList := by
  obtain ⟨letters, hletters, rfl⟩ := List.mem_map.1 h
  obtain ⟨hsplit, hnonempty⟩ := List.mem_filter.1 hletters
  obtain ⟨hslash, hsubset⟩ := of_mem_splitOn hsplit
  refine ⟨fun hempty => ?_, by simpa using hslash, by simpa using hsubset⟩
  have hletters : letters = [] := by simpa using congrArg String.toList hempty
  simp [hletters] at hnonempty

theorem isAbsolute_append (h : base ≠ "") (rest : String) : isAbsolute (base ++ rest) = isAbsolute base := by
  obtain ⟨c, cs, hbase⟩ := List.exists_cons_of_ne_nil (show base.toList ≠ [] by simpa using h)
  simp [isAbsolute, hbase]

/-- A path into a directory goes on with the name. -/
theorem ofPath_joinPath (base : String) (h : '/' ∉ name.toList) (hname : name ≠ "") :
    Route.ofPath (joinPath base name) = ⟨isAbsolute base, pathNames base ++ [name], false⟩ := by
  have hrelative : isAbsolute name = false := by
    rw [isAbsolute, decide_eq_false_iff_not]
    exact fun hhead => h (List.mem_of_mem_head? hhead)
  have hslash (front : String) : endsInSlash (front ++ name) = false := by
    have hletters : name.toList ≠ [] := by simpa using hname
    rw [endsInSlash, decide_eq_false_iff_not, String.toList_append, List.getLast?_append_of_ne_nil _ hletters]
    exact fun hlast => h (List.mem_of_getLast? hlast)
  rw [joinPath, hrelative, if_neg Bool.false_ne_true, Route.ofPath]
  split
  · rename_i hbase
    by_cases hempty : base = ""
    · subst hempty
      rw [String.empty_append, hrelative, pathNames_single h hname, ← String.empty_append (s := name), hslash]
      rfl
    · rw [isAbsolute_append hempty, hslash]
      obtain ⟨front, hfront⟩ := List.getLast?_eq_some_iff.1
        (show base.toList.getLast? = some '/' by simpa [hempty, endsInSlash] using hbase)
      have hjoined : (base ++ name).toList = front ++ '/' :: name.toList := by simp [hfront]
      rw [pathNames_slash hjoined, pathNames_slash hfront, String.ofList_toList, pathNames_single h hname]
      simp [pathNames]
  · rename_i hbase
    obtain ⟨hempty, -⟩ : base ≠ "" ∧ _ := by simpa using hbase
    have hjoined : (base ++ "/" ++ name).toList = base.toList ++ '/' :: name.toList := by simp
    rw [String.append_assoc, isAbsolute_append hempty, ← String.append_assoc, hslash, pathNames_slash hjoined, String.ofList_toList,
      String.ofList_toList, pathNames_single h hname]

theorem joinPath_ne_empty (base : String) (h : '/' ∉ name.toList) (hname : name ≠ "") : joinPath base name ≠ "" := by
  intro hempty
  have hnames := congrArg Route.steps (ofPath_joinPath base h hname)
  rw [hempty] at hnames
  simp [Route.ofPath, pathNames] at hnames

theorem toList_path (p : Place) : p.path.toList = '/' :: ['/'].intercalate (p.map String.toList) := by
  simp [Place.path, String.toList_intercalate]

theorem pathNames_path (h : ∀ name ∈ p, IsName name) : pathNames p.path = p := by
  have hfirst : p.path.toList = [] ++ '/' :: ['/'].intercalate (p.map String.toList) := toList_path p
  rw [pathNames_slash hfirst]
  cases p with
  | nil => simp [pathNames]
  | cons first rest =>
    have hslash : ∀ letters ∈ (first :: rest).map String.toList, '/' ∉ letters := by
      simpa using fun name hname => (h name hname).slash
    have hsplit := List.splitOn_intercalate '/' hslash (by simp)
    have hfilter : ((first :: rest).map String.toList).filter (!·.isEmpty) = (first :: rest).map String.toList :=
      List.filter_eq_self.2 (by simpa using fun name hname => (h name hname).nonempty)
    rw [pathNames, pathNames, String.toList_ofList, String.toList_ofList, hsplit, hfilter]
    simp

theorem nul_not_mem_path (h : ∀ name ∈ p, IsName name) : '\x00' ∉ p.path.toList := by
  rw [toList_path]
  refine List.not_mem_cons_of_ne_of_not_mem (by decide) ?_
  induction p with
  | nil => simp
  | cons first rest ih =>
    obtain ⟨hfirst, hrest⟩ := List.forall_mem_cons.1 h
    cases rest with
    | nil => simpa using hfirst.nul
    | cons next rest =>
      rw [List.map_cons, List.map_cons, List.intercalate_cons_cons, List.mem_append, List.mem_append, not_or, not_or]
      exact ⟨⟨hfirst.nul, by decide⟩, ih hrest⟩

theorem ofPath_entry (hp : ∀ step ∈ p, IsName step) (hname : IsName name) :
    Route.ofPath (joinPath p.path name) = ⟨true, p ++ [name], false⟩ := by
  have habsolute : isAbsolute p.path = true := by simp [isAbsolute, toList_path]
  rw [ofPath_joinPath _ hname.slash hname.nonempty, pathNames_path hp, habsolute]

end

/-! ## Walks -/

/-- The place that some steps lead to if all directories on the way are there. -/
def Place.walk : Place → List String → Place
  | p, [] => p
  | p, step :: steps => walk (if step = "." then p else if step = ".." then p.dropLast else p ++ [step]) steps

namespace Place

variable {p : Place} {steps more : List String}

theorem walk_append (p : Place) (steps more : List String) : p.walk (steps ++ more) = (p.walk steps).walk more := by
  induction steps generalizing p with
  | nil => rfl
  | cons step steps ih => exact ih _

theorem walk_of_names (h : ∀ step ∈ steps, isDots step = false) : p.walk steps = p ++ steps := by
  induction steps generalizing p with
  | nil => simp [walk]
  | cons step steps ih =>
    obtain ⟨hstep, hsteps⟩ := List.forall_mem_cons.1 h
    obtain ⟨hstay, hleave⟩ : step ≠ "." ∧ step ≠ ".." := by simpa [isDots] using hstep
    rw [walk, if_neg hstay, if_neg hleave, ih hsteps, List.append_assoc, List.singleton_append]

theorem walk_name {name : String} (h : isDots name = false) (p : Place) : p.walk [name] = p ++ [name] :=
  walk_of_names (by simpa using h)

/-- Steps that stay in place can be left out. -/
theorem walk_moves (p : Place) (steps : List String) : p.walk (steps.filter (· ≠ ".")) = p.walk steps := by
  induction steps generalizing p with
  | nil => rfl
  | cons step steps ih =>
    by_cases hstay : step = "."
    · rw [List.filter_cons_of_neg (by simpa using hstay), ih, walk, if_pos hstay]
    · rw [List.filter_cons_of_pos (by simpa using hstay), walk, ih, walk]

/-- Without a step back, a walk goes only down. -/
theorem walk_of_no_leave (h : ".." ∉ steps) : p.walk steps = p ++ steps.filter (· ≠ ".") := by
  rw [← walk_moves]
  refine walk_of_names fun step hstep => ?_
  obtain ⟨hmem, hstay⟩ := List.mem_filter.1 hstep
  simp only [isDots, Bool.or_eq_false_iff, decide_eq_false_iff_not]
  exact ⟨by simpa using hstay, fun hleave => h (hleave ▸ hmem)⟩

end Place

namespace FileTree

variable {t t' : FileTree} {working p q r : Place} {step name : String} {steps : List String} {path text : String} {n : Node}

/-- A path that goes through leads where its steps say. -/
theorem follow_eq_walk (h : t.follow p steps = .ok q) : q = p.walk steps := by
  induction steps generalizing p with
  | nil =>
    cases h
    rfl
  | cons step steps ih =>
    obtain ⟨-, next, hleads, hnext⟩ := follow_cons_eq_ok.1 h
    have hstep : next = if step = "." then p else if step = ".." then p.dropLast else p ++ [step] := by
      cases hleads with
      | stay => rw [if_pos rfl]
      | leave => rw [if_neg (by decide), if_pos rfl]
      | enter hdots =>
        obtain ⟨hstay, hleave⟩ : step ≠ "." ∧ step ≠ ".." := by simpa [isDots] using hdots
        rw [if_neg hstay, if_neg hleave]
    rw [Place.walk, ← hstep]
    exact ih hnext

/-! ## Sound trees -/

/-- A tree that a file system can have. -/
structure Sound (t : FileTree) : Prop where
  names : ∀ p, (t.get? p).isSome = true → ∀ name ∈ p, IsName name
  parents : ∀ p, (t.get? p).isSome = true → t.hasDirectory p.dropLast = true

theorem isSome_of_hasDirectory (h : t.hasDirectory p = true) : (t.get? p).isSome = true := by
  rw [of_decide_eq_true h]
  rfl

theorem sound_empty : Sound empty := by
  have hroot (p : Place) (h : (empty.get? p).isSome = true) : p = [] := by
    by_contra hp
    simp [get?, hp, empty] at h
  constructor
  · intro p h
    simp [hroot p h]
  · intro p h
    rw [hroot p h]
    rfl

/-- A directory stays where something is put that replaces none. -/
theorem hasDirectory_put (h : t.hasDirectory p = false) (n : Node) (hq : t.hasDirectory q = true) : (t.put p n).hasDirectory q = true := by
  have hne : q ≠ p := by
    rintro rfl
    rw [h] at hq
    cases hq
  rw [hasDirectory, get?_put (ne_nil_of_hasDirectory h), if_neg hne]
  exact hq

namespace Sound

theorem put (h : t.Sound) (hp : t.hasDirectory p = true) (hname : IsName name) (hnew : t.hasDirectory (p ++ [name]) = false)
    (n : Node) : (t.put (p ++ [name]) n).Sound := by
  have hget (q : Place) := get?_put (t := t) (q := q) (ne_nil_of_hasDirectory hnew) n
  constructor
  · intro q hq
    rw [hget] at hq
    split at hq
    · rename_i hsame
      subst hsame
      intro other hother
      rcases List.mem_append.1 hother with hold | hlast
      · exact h.names p (isSome_of_hasDirectory hp) other hold
      · rwa [List.mem_singleton.1 hlast]
    · exact h.names q hq
  · intro q hq
    rw [hget] at hq
    split at hq
    · rename_i hsame
      subst hsame
      rw [List.dropLast_concat]
      exact hasDirectory_put hnew n hp
    · exact hasDirectory_put hnew n (h.parents q hq)

/-- What is there lies in directories that are there. -/
theorem hasDirectory_of_append (h : t.Sound) {rest : List String} (hrest : rest ≠ [])
    (hthere : (t.get? (p ++ rest)).isSome = true) : t.hasDirectory p = true := by
  induction rest using List.reverseRecOn with
  | nil => exact absurd rfl hrest
  | append_singleton rest last ih =>
    have hparent := h.parents _ hthere
    rw [← List.append_assoc, List.dropLast_concat] at hparent
    by_cases hempty : rest = []
    · simpa [hempty] using hparent
    · exact ih hempty (isSome_of_hasDirectory hparent)

theorem hasDirectory_of_prefix (h : t.Sound) {rest : List String} (hdirectory : t.hasDirectory (p ++ rest) = true) :
    t.hasDirectory p = true := by
  by_cases hrest : rest = []
  · simpa [hrest] using hdirectory
  · exact h.hasDirectory_of_append hrest (isSome_of_hasDirectory hdirectory)

/-- The names of what is there lead to it. -/
theorem follow (h : t.Sound) (hthere : (t.get? (p ++ steps)).isSome = true) : t.follow p steps = .ok (p ++ steps) := by
  induction steps generalizing p with
  | nil => simp [FileTree.follow]
  | cons step steps ih =>
    have hshift : p ++ step :: steps = (p ++ [step]) ++ steps := by simp
    have hstep : IsName step := h.names _ hthere step (by simp)
    have hnext : (t.get? (p ++ [step])).isSome = true := by
      by_cases hempty : steps = []
      · simpa [hempty] using hthere
      · exact isSome_of_hasDirectory (h.hasDirectory_of_append hempty (hshift ▸ hthere))
    refine follow_cons_eq_ok.2 ⟨h.hasDirectory_of_append (List.cons_ne_nil step steps) hthere, p ++ [step], ?_, ?_⟩
    · exact .enter hstep.dots hstep.short hnext
    · rw [hshift]
      exact ih (hshift ▸ hthere)

/-- Where there is a directory, the steps that go only down lead to it. -/
theorem follow_walk (h : t.Sound) (hdirectory : t.hasDirectory (p.walk steps) = true) (hleave : ".." ∉ steps) :
    t.follow p (steps ++ ["."]) = .ok (p.walk steps) := by
  induction steps generalizing p with
  | nil => exact follow_cons_eq_ok.2 ⟨hdirectory, p, .stay, rfl⟩
  | cons step steps ih =>
    obtain ⟨hstep, hsteps⟩ : step ≠ ".." ∧ ".." ∉ steps := by simpa [eq_comm] using hleave
    have hp : t.hasDirectory p = true := by
      rw [Place.walk_of_no_leave hleave] at hdirectory
      exact h.hasDirectory_of_prefix hdirectory
    rw [Place.walk, if_neg hstep] at hdirectory ⊢
    refine follow_cons_eq_ok.2 ⟨hp, _, ?_, ih hdirectory hsteps⟩
    by_cases hstay : step = "."
    · subst hstay
      exact .stay
    · rw [if_neg hstay] at hdirectory ⊢
      have hentry : t.hasDirectory (p ++ [step]) = true := by
        rw [Place.walk_of_no_leave hsteps] at hdirectory
        exact h.hasDirectory_of_prefix hdirectory
      have hname := h.names _ (isSome_of_hasDirectory hentry) step (by simp)
      exact .enter hname.dots hname.short (isSome_of_hasDirectory hentry)

/-- What is at a place is found by a path that spells it from the root. -/
theorem node?_eq (h : t.Sound) (hroute : Route.ofPath path = ⟨true, p, false⟩) (hnames : ∀ name ∈ p, isDots name = false)
    (working : Place) : t.node? working path = if FileTree.route path = .ok (.ofPath path) then t.get? p else none := by
  have hlocate : t.locate working path = (FileTree.route path).bind fun r =>
      t.follow (r.origin working) (r.steps ++ if r.slash then ["."] else []) := rfl
  rw [node?, hlocate]
  cases hpath : FileTree.route path with
  | error e => simp [Except.bind]
  | ok r =>
    obtain rfl := route_eq_ok hpath
    have hsteps : t.follow ((Route.ofPath path).origin working) ((Route.ofPath path).steps ++
        if (Route.ofPath path).slash then ["."] else []) = t.follow [] p := by
      rw [hroute]
      simp [Route.origin]
    simp only [Except.bind, hsteps, if_true]
    cases hfollow : t.follow [] p with
    | ok q => rw [follow_eq_walk hfollow, Place.walk_of_names hnames, List.nil_append]
    | error e =>
      by_cases hthere : (t.get? p).isSome = true
      · rw [h.follow (p := []) hthere] at hfollow
        cases hfollow
      · exact Eq.symm (by simpa using hthere)

end Sound

/-- The path of a directory and a name in it can be used if it is not too long. -/
theorem route_entry (hp : ∀ step ∈ p, IsName step) (hname : IsName name)
    (hroom : (joinPath p.path name).utf8ByteSize ≤ maxPath) : route (joinPath p.path name) = .ok (.ofPath (joinPath p.path name)) := by
  have hnul : '\x00' ∉ (joinPath p.path name).toList := by
    have hpath := nul_not_mem_path hp
    rw [joinPath]
    split
    · exact hname.nul
    · split
      · simpa using ⟨hpath, hname.nul⟩
      · simpa using ⟨hpath, hname.nul⟩
  rw [route, if_neg (by simpa using hnul), if_neg (by simpa using joinPath_ne_empty p.path hname.slash hname.nonempty),
    if_neg (Nat.not_lt_of_le hroom)]

/-- The path of a directory and a name lead to the entry of that name. -/
theorem Sound.node?_entry (h : t.Sound) (hp : ∀ step ∈ p, IsName step) (hname : IsName name)
    (hroom : (joinPath p.path name).utf8ByteSize ≤ maxPath) (working : Place) :
    t.node? working (joinPath p.path name) = t.get? (p ++ [name]) := by
  have hdots : ∀ step ∈ p ++ [name], isDots step = false := by
    simpa [or_imp, forall_and] using ⟨fun step hstep => (hp step hstep).dots, hname.dots⟩
  rw [h.node?_eq (ofPath_entry hp hname) hdots, if_pos (route_entry hp hname hroom)]

theorem readText_of_node? (h : t.node? working path = some (.file text)) : t.readText working path = .ok text := by
  rw [node?] at h
  cases hlocate : t.locate working path with
  | ok p => exact readText_of_file hlocate (by rwa [hlocate] at h)
  | error e => rw [hlocate] at h; cases h

/-! ## Writing a text -/

/-- The names on a path that can be used are those of entries, if they are not too long and no dots. -/
theorem of_mem_route {r : Route} (h : FileTree.route path = .ok r) (hname : name ∈ pathNames path) :
    name ≠ "" ∧ '/' ∉ name.toList ∧ '\x00' ∉ name.toList := by
  obtain ⟨hempty, hslash, hletters⟩ := of_mem_pathNames hname
  refine ⟨hempty, hslash, fun hnul => ?_⟩
  rw [FileTree.route, if_pos (List.contains_iff_mem.2 (hletters hnul))] at h
  cases h

/-- Where a path into a directory can be used, so can that of the directory. -/
theorem route_of_joinPath {base : String} {r : Route} (h : FileTree.route (joinPath base name) = .ok r)
    (hname : isAbsolute name = false) (hbase : base ≠ "") : FileTree.route base = .ok (.ofPath base) := by
  obtain ⟨rest, hrest⟩ : ∃ rest, joinPath base name = base ++ rest := by
    rw [joinPath, hname, if_neg Bool.false_ne_true]
    split
    · exact ⟨name, rfl⟩
    · exact ⟨"/" ++ name, String.append_assoc⟩
  rw [FileTree.route, hrest] at h
  split at h
  · cases h
  split at h
  · cases h
  split at h
  · cases h
  · rename_i hnul _ hlength
    rw [String.toList_append, List.contains_iff_mem, List.mem_append, not_or] at hnul
    rw [String.utf8ByteSize_append] at hlength
    rw [FileTree.route, if_neg (by simpa using hnul.1), if_neg (by simpa using hbase), if_neg (by omega)]

/-- A written text is a new entry of a directory, or in place of a file. -/
theorem writeText_cases (h : t.writeText working path text = .ok t') : ∃ p name, t' = t.put (p ++ [name]) (.file text) ∧
    NamesFile path name ∧ t.directoryOf working (.ofPath path) = .ok p ∧ t.hasDirectory (p ++ [name]) = false ∧ IsName name := by
  obtain ⟨q, hq, ht'⟩ := bind_eq_ok.1 h
  cases ht'
  obtain ⟨p, name, rfl, hnames, hdirectory, hnew⟩ := writable_eq_ok hq
  obtain ⟨hempty, hslash, hnul⟩ := of_mem_route hnames.route (List.mem_of_getLast? hnames.steps)
  exact ⟨p, name, rfl, hnames, hdirectory, hnew, hempty, hnames.dots, hslash, hnul, hnames.short⟩

theorem Sound.writeText (h : t.Sound) (hwrite : t.writeText working path text = .ok t') : t'.Sound := by
  obtain ⟨p, name, rfl, -, hdirectory, hnew, hname⟩ := writeText_cases hwrite
  exact h.put (follow_stay hdirectory).2 hname hnew _

/-- A text that is written into a directory is the entry of that name. -/
theorem writeText_joinPath {base : String} (hslash : '/' ∉ name.toList) (hempty : name ≠ "")
    (h : t.writeText working (joinPath base name) text = .ok t') : ∃ p,
      t.follow ((Route.ofPath base).origin working) (pathNames base) = .ok p ∧ t.hasDirectory p = true ∧ IsName name ∧
        t.hasDirectory (p ++ [name]) = false ∧ t' = t.put (p ++ [name]) (.file text) ∧
          t'.locate working (joinPath base name) = .ok (p ++ [name]) := by
  obtain ⟨p, last, ht', hnames, hdirectory, hnew, hname⟩ := writeText_cases h
  have hroute := ofPath_joinPath base hslash hempty
  have hsteps : pathNames (joinPath base name) = pathNames base ++ [name] := congrArg Route.steps hroute
  obtain rfl : last = name := by simpa [hsteps, eq_comm] using hnames.steps
  have hplace : t.follow ((Route.ofPath base).origin working) (pathNames base ++ ["."]) = .ok p := by
    rw [hroute, directoryOf, List.dropLast_concat] at hdirectory
    exact hdirectory
  obtain ⟨hfollow, hthere⟩ := follow_stay hplace
  refine ⟨p, hfollow, hthere, hname, hnew, ht', ?_⟩
  obtain ⟨q, -, -, ht'', hlocate, -⟩ := writeText_eq_ok h
  obtain rfl : q = p ++ [last] := by
    rw [ht', put, put, FileTree.mk.injEq, List.cons.injEq, Prod.mk.injEq] at ht''
    exact ht''.1.1.symm
  exact hlocate

end FileTree

end AccelFirmware
