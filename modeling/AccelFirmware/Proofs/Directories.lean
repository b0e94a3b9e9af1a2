import AccelFirmware.Proofs.Places

/-!
# Directories that are made

Making a directory adds directories on the way to it and changes nothing else. The path leads to a directory afterwards, and then
there is nothing more to make.
-/

namespace AccelFirmware

open FileTree (isDots maxName)

/-! ## Routes -/

namespace Route

variable {r : Route} {working q : Place}

/-- The place is on the way to the end of the route, or the end. -/
def OnWay (r : Route) (working q : Place) : Prop := ∃ steps, steps <+: r.moves ∧ q = (r.origin working).walk steps

theorem moves_parent (r : Route) : r.parent.moves = r.moves.dropLast := by
  refine List.filter_eq_self.2 fun step hstep => ?_
  exact (List.mem_filter.1 (List.dropLast_subset _ hstep)).2

theorem moves_subset (r : Route) : r.moves ⊆ r.steps := List.filter_sublist.subset

theorem isEmpty_ofPath {path : String} (h : path ≠ "") : (ofPath path).isEmpty = false := by
  obtain ⟨c, cs, hpath⟩ := List.exists_cons_of_ne_nil (show path.toList ≠ [] by simpa using h)
  by_cases hc : c = '/'
  · simp [isEmpty, ofPath, isAbsolute, hpath, hc]
  · obtain ⟨first, rest, hsplit⟩ := List.exists_cons_of_ne_nil (List.splitOn_ne_nil '/' cs)
    have hnames : pathNames path ≠ [] := by
      simp [pathNames, hpath, List.splitOn_cons_eq_if_modifyHead, hc, hsplit]
    simp [isEmpty, ofPath, hnames]

end Route

namespace FileTree

variable {t t' u : FileTree} {working p q : Place} {r : Route} {path last : String}

/-! ## Trees that grow -/

/-- What is in the first tree is in the second one: directories, and files, perhaps with other texts. -/
structure Grows (t t' : FileTree) : Prop where
  directories : ∀ q, t.hasDirectory q = true → t'.hasDirectory q = true
  files : ∀ q text, t.get? q = some (.file text) → ∃ text', t'.get? q = some (.file text')

namespace Grows

theorem refl (t : FileTree) : t.Grows t := ⟨fun _ => id, fun _ text h => ⟨text, h⟩⟩

theorem trans (h : t.Grows u) (h' : u.Grows t') : t.Grows t' := by
  refine ⟨fun q => h'.directories q ∘ h.directories q, fun q text ht => ?_⟩
  obtain ⟨between, hu⟩ := h.files q text ht
  exact h'.files q between hu

theorem entries (h : t.Grows t') (hq : (t.get? q).isSome = true) : (t'.get? q).isSome = true := by
  obtain ⟨n, hn⟩ := Option.isSome_iff_exists.1 hq
  cases n with
  | directory => exact isSome_of_hasDirectory (h.directories q (by simp [hasDirectory, hn]))
  | file text =>
    obtain ⟨text', ht'⟩ := h.files q text hn
    rw [ht']
    rfl

/-- All paths lead where they did. -/
theorem follow (h : t.Grows t') {steps : List String} (hfollow : t.follow p steps = .ok q) : t'.follow p steps = .ok q :=
  follow_mono h.directories (fun _ => h.entries) hfollow

theorem locate (h : t.Grows t') (hlocate : t.locate working path = .ok p) : t'.locate working path = .ok p := by
  obtain ⟨r, hr, hfollow⟩ := bind_eq_ok.1 hlocate
  exact bind_eq_ok.2 ⟨r, hr, h.follow hfollow⟩

/-- A text that has not changed where its path leads is read again. -/
theorem readText (h : t.Grows t') {text : String} (hread : t.readText working path = .ok text)
    (hsame : ∀ q, t'.locate working path = .ok q → t'.get? q = t.get? q) : t'.readText working path = .ok text := by
  obtain ⟨q, hq, hnode⟩ := bind_eq_ok.1 hread
  have hplace := h.locate hq
  refine readText_of_file hplace ?_
  rw [hsame q hplace]
  split at hnode <;> cases hnode
  assumption

end Grows

/-- With a new entry, or another text in a file, a tree grows. -/
theorem grows_put {n : Node} (h : t.hasDirectory p = false) (hn : n = .directory → t.get? p = none) : t.Grows (t.put p n) := by
  refine ⟨fun q => hasDirectory_put h n, fun q text hq => ?_⟩
  rw [get?_put (ne_nil_of_hasDirectory h)]
  split
  · rename_i hsame
    subst hsame
    cases n with
    | directory =>
      rw [hn rfl] at hq
      cases hq
    | file text' => exact ⟨text', rfl⟩
  · exact ⟨text, hq⟩

/-! ## One directory -/

/-- A directory is made at the end of a route, where there is nothing yet. -/
theorem makeDirectory_eq_ok (h : t.makeDirectory working r = .ok t') : ∃ p last, t' = t.put (p ++ [last]) .directory ∧
    t.directoryOf working r = .ok p ∧ r.steps.getLast? = some last ∧ isDots last = false ∧ last.utf8ByteSize ≤ maxName ∧
    t.get? (p ++ [last]) = none := by
  rw [makeDirectory] at h
  split at h
  · cases h
  · rename_i last hlast
    obtain ⟨p, hp, h⟩ := bind_eq_ok.1 h
    split at h
    · cases h
    split at h
    · cases h
    split at h
    · cases h
    · rename_i hdots hlength hnew
      cases h
      exact ⟨p, last, rfl, hp, hlast, by simpa using hdots, Nat.le_of_not_lt hlength, by simpa using hnew⟩

theorem walk_of_directoryOf (h : t.directoryOf working r = .ok p) (hlast : r.steps.getLast? = some last)
    (hdots : isDots last = false) : p ++ [last] = (r.origin working).walk r.moves := by
  obtain ⟨hplace, -⟩ := follow_stay h
  rw [Route.moves, Place.walk_moves, ← List.dropLast_append_getLast? last hlast, Place.walk_append, Place.walk_name hdots,
    follow_eq_walk hplace]

/-! ## All directories on a route -/

/-- What holds of every tree and itself, of every directory that is made on the way, and of two changes that hold in turn, holds of
all directories together. -/
theorem makeRoute_rec {motive : FileTree → FileTree → Prop} (hrefl : ∀ t, motive t t)
    (htrans : ∀ {t u v}, motive t u → motive u v → motive t v) (t : FileTree) (working : Place) (r : Route)
    (hmake : ∀ {t r' made}, r'.absolute = r.absolute → r'.moves <+: r.moves → t.makeDirectory working r' = .ok made →
      motive t made) : motive t (t.makeRoute working r).2 := by
  fun_induction makeRoute t working r with
  | case1 => exact hrefl _
  | case2 r _ made hmade => exact hmake rfl List.prefix_rfl hmade
  | case3 => exact hrefl _
  | case4 r _ _ _ e u hparent ih =>
    rw [hparent] at ih
    exact ih fun habsolute hmoves => hmake habsolute (hmoves.trans (r.moves_parent ▸ List.dropLast_prefix _))
  | case5 r _ _ _ u hparent made hmade ih =>
    rw [hparent] at ih
    exact htrans (ih fun habsolute hmoves => hmake habsolute (hmoves.trans (r.moves_parent ▸ List.dropLast_prefix _)))
      (hmake rfl List.prefix_rfl hmade)
  | case6 r _ _ _ u hparent e hmade ih =>
    rw [hparent] at ih
    exact ih fun habsolute hmoves => hmake habsolute (hmoves.trans (r.moves_parent ▸ List.dropLast_prefix _))
  | case7 => exact hrefl _

/-- Directories were added at some places, and nothing else changed. -/
def Furnishes (t t' : FileTree) (onWay : Place → Prop) : Prop :=
  ∀ q, t'.get? q = t.get? q ∨ t.get? q = none ∧ t'.get? q = some .directory ∧ onWay q

theorem Furnishes.trans {onWay : Place → Prop} (h : t.Furnishes u onWay) (h' : u.Furnishes t' onWay) :
    t.Furnishes t' onWay := by
  intro q
  rcases h q with hsame | ⟨hnone, hmade, hway⟩
  · rw [← hsame]
    exact h' q
  · rcases h' q with hsame | ⟨hnone', -, -⟩
    · exact Or.inr ⟨hnone, hsame.trans hmade, hway⟩
    · rw [hmade] at hnone'
      cases hnone'

theorem Furnishes.mono {onWay onWay' : Place → Prop} (h : t.Furnishes t' onWay) (hway : ∀ q, onWay q → onWay' q) :
    t.Furnishes t' onWay' :=
  fun q => (h q).imp_right fun ⟨hnone, hmade, hq⟩ => ⟨hnone, hmade, hway q hq⟩

theorem Furnishes.isSome {onWay : Place → Prop} (h : t.Furnishes t' onWay) (hq : (t.get? q).isSome = true) :
    t'.get? q = t.get? q := by
  rcases h q with hsame | ⟨hnone, -, -⟩
  · exact hsame
  · rw [hnone] at hq
    cases hq

theorem Furnishes.grows {onWay : Place → Prop} (h : t.Furnishes t' onWay) : t.Grows t' := by
  constructor
  · intro q hq
    rw [FileTree.hasDirectory, h.isSome (isSome_of_hasDirectory hq)]
    exact hq
  · intro q text hq
    exact ⟨text, by rw [h.isSome (by rw [hq]; rfl), hq]⟩

theorem furnishes_makeRoute (t : FileTree) (working : Place) (r : Route) :
    t.Furnishes (t.makeRoute working r).2 (r.OnWay working) := by
  refine makeRoute_rec (motive := fun t t' => t.Furnishes t' (r.OnWay working)) (fun _ _ => Or.inl rfl) .trans t working r ?_
  intro t r' made habsolute hmoves hmade q
  obtain ⟨p, last, rfl, hp, hlast, hdots, -, hnew⟩ := makeDirectory_eq_ok hmade
  have hplace := walk_of_directoryOf hp hlast hdots
  rw [get?_put (by simp)]
  split
  · rename_i hq
    subst hq
    refine Or.inr ⟨hnew, rfl, r'.moves, hmoves, ?_⟩
    rw [hplace, Route.origin, Route.origin, habsolute]
  · exact Or.inl rfl

theorem Sound.makeRoute (h : t.Sound) (hsteps : ∀ step ∈ r.steps, step ≠ "" ∧ '/' ∉ step.toList ∧ '\x00' ∉ step.toList) :
    (t.makeRoute working r).2.Sound := by
  refine makeRoute_rec (motive := fun t t' => t.Sound → t'.Sound) (fun _ => id) (fun h h' => h' ∘ h) t working r ?_ h
  intro t r' made habsolute hmoves hmade ht
  obtain ⟨p, last, rfl, hp, hlast, hdots, hshort, hnew⟩ := makeDirectory_eq_ok hmade
  have hmem : last ∈ r.steps := by
    refine r.moves_subset (hmoves.subset (List.mem_filter.2 ⟨List.mem_of_getLast? hlast, ?_⟩))
    simpa [isDots] using (Bool.or_eq_false_iff.1 hdots).1
  obtain ⟨hempty, hslash, hnul⟩ := hsteps last hmem
  exact ht.put (follow_stay hp).2 ⟨hempty, hdots, hslash, hnul, hshort⟩ (by simp [hasDirectory, hnew]) _

/-! ## The end of a route -/

theorem endsInDirectory_iff : t.endsInDirectory working r = true ↔
    ∃ p, t.follow (r.origin working) (r.steps ++ ["."]) = .ok p := by
  rw [endsInDirectory]
  cases t.follow (r.origin working) (r.steps ++ ["."]) <;> simp

theorem endsInDirectory_of_made (h : t.makeDirectory working r = .ok t') : t'.endsInDirectory working r = true := by
  obtain ⟨p, last, rfl, hp, hlast, hdots, hshort, hnew⟩ := makeDirectory_eq_ok h
  obtain ⟨hplace, hdirectory⟩ := follow_stay hp
  have hgrows : t.Grows (t.put (p ++ [last]) .directory) := grows_put (by simp [hasDirectory, hnew]) fun _ => hnew
  have hmade : (t.put (p ++ [last]) .directory).get? (p ++ [last]) = some .directory := by rw [get?_put (by simp), if_pos rfl]
  refine endsInDirectory_iff.2 ⟨p ++ [last], ?_⟩
  rw [← List.dropLast_append_getLast? last hlast, List.append_assoc]
  -- The steps in front lead where they did; the last one enters what has been made.
  refine follow_append_eq_ok.2 ⟨p, hgrows.follow hplace, ?_⟩
  refine follow_cons_eq_ok.2 ⟨hgrows.directories p hdirectory, p ++ [last], .enter hdots hshort (by rw [hmade]; rfl), ?_⟩
  exact follow_cons_eq_ok.2 ⟨by rw [hasDirectory, hmade]; rfl, p ++ [last], .stay, rfl⟩

theorem Grows.endsInDirectory (h : t.Grows t') (hends : t.endsInDirectory working r = true) :
    t'.endsInDirectory working r = true := by
  obtain ⟨p, hp⟩ := endsInDirectory_iff.1 hends
  exact endsInDirectory_iff.2 ⟨p, h.follow hp⟩

/-- A route whose directories have been made ends in a directory. -/
theorem endsInDirectory_makeRoute (h : t.makeRoute working r = (.ok (), t')) (hr : r.isEmpty = false) :
    t'.endsInDirectory working r = true := by
  rw [makeRoute, if_neg (by simp [hr])] at h
  have hfailed {e : FileError} {v : FileTree}
      (hv : ((if v.endsInDirectory working r then .ok () else .error e : Except FileError Unit), v) = (.ok (), t')) :
      t'.endsInDirectory working r = true := by
    split at hv
    · rename_i hends
      cases hv
      exact hends
    · cases hv
  split at h
  · rename_i hmade
    cases h
    exact endsInDirectory_of_made hmade
  · split at h
    · cases h
    · split at h
      · cases h
      · split at h
        · rename_i hmade
          cases h
          exact endsInDirectory_of_made hmade
        · exact hfailed h
  · exact hfailed h

/-- Where a route ends in a directory there is nothing to make. -/
theorem makeRoute_of_endsInDirectory (h : t.endsInDirectory working r = true) : t.makeRoute working r = (.ok (), t) := by
  have hexists : r.isEmpty = false → t.makeDirectory working r = .error .alreadyExists := by
    intro hr
    obtain ⟨q, hq⟩ := endsInDirectory_iff.1 h
    rw [makeDirectory]
    split
    · rfl
    · rename_i last hlast
      rw [← List.dropLast_append_getLast? last hlast, List.append_assoc] at hq
      obtain ⟨p, hp, hend⟩ := follow_append_eq_ok.1 hq
      obtain ⟨hdirectory, next, hleads, -⟩ := follow_cons_eq_ok.1 hend
      have hparent : t.directoryOf working r = .ok p :=
        follow_append_eq_ok.2 ⟨p, hp, follow_cons_eq_ok.2 ⟨hdirectory, p, .stay, rfl⟩⟩
      rw [hparent]
      cases hleads with
      | stay => rfl
      | leave => rfl
      | enter hdots hshort hthere => simp [bind, Except.bind, hdots, Nat.not_lt_of_le hshort, hthere]; rfl
  rw [makeRoute]
  split
  · rfl
  · rename_i hr
    rw [hexists (by simpa using hr)]

/-! ## The directory of a path -/

theorem makeDirectories_of_route (h : route path = .ok r) : t.makeDirectories working path = t.makeRoute working (.ofPath path) := by
  obtain rfl := route_eq_ok h
  have hpath : path.isEmpty = false := by
    by_contra hempty
    rw [Bool.not_eq_false, String.isEmpty_iff] at hempty
    subst hempty
    cases h
  rw [makeDirectories, hpath, h]
  rfl

theorem makeDirectories_cases (t : FileTree) (working : Place) (path : String) : (t.makeDirectories working path).2 = t ∨
    route path = .ok (.ofPath path) ∧ t.makeDirectories working path = t.makeRoute working (.ofPath path) := by
  cases hroute : route path with
  | ok r => exact Or.inr ⟨route_eq_ok hroute ▸ rfl, makeDirectories_of_route hroute⟩
  | error e =>
    refine Or.inl ?_
    rw [makeDirectories, hroute]
    split <;> rfl

theorem makeDirectories_eq_ok (h : t.makeDirectories working path = (.ok (), t')) (hpath : path ≠ "") :
    route path = .ok (.ofPath path) ∧ t.makeRoute working (.ofPath path) = (.ok (), t') := by
  cases hroute : route path with
  | ok r => exact ⟨route_eq_ok hroute ▸ rfl, makeDirectories_of_route hroute ▸ h⟩
  | error e =>
    rw [makeDirectories, if_neg (by simpa using hpath), hroute] at h
    cases h

/-- A directory that has been made is not made again. -/
theorem makeDirectories_again (h : t.makeDirectories working path = (.ok (), u)) (hgrows : u.Grows t') :
    t'.makeDirectories working path = (.ok (), t') := by
  by_cases hpath : path = ""
  · subst hpath
    rfl
  · obtain ⟨hroute, hmade⟩ := makeDirectories_eq_ok h hpath
    rw [makeDirectories_of_route hroute]
    exact makeRoute_of_endsInDirectory (hgrows.endsInDirectory (endsInDirectory_makeRoute hmade (Route.isEmpty_ofPath hpath)))

theorem furnishes_makeDirectories (t : FileTree) (working : Place) (path : String) :
    t.Furnishes (t.makeDirectories working path).2 ((Route.ofPath path).OnWay working) := by
  rcases t.makeDirectories_cases working path with hsame | ⟨-, hmake⟩
  · rw [hsame]
    exact fun _ => Or.inl rfl
  · rw [hmake]
    exact furnishes_makeRoute t working _

theorem Sound.makeDirectories (h : t.Sound) (working : Place) (path : String) : (t.makeDirectories working path).2.Sound := by
  rcases t.makeDirectories_cases working path with hsame | ⟨hroute, hmake⟩
  · rwa [hsame]
  · rw [hmake]
    exact h.makeRoute fun _ => of_mem_route hroute

end FileTree

end AccelFirmware
