import AccelFirmware.Configuration.Record
import AccelFirmware.Proofs.Decoding

/-!
# Settings and their records

The record of some settings is read back as these settings, whatever the order of its entries. Each entry sets its own axis and
leaves the others alone, so the axes without an entry keep their initial values. Settings without a conflict therefore stay
without one when they are written and read again.
-/

namespace AccelFirmware

/-! ## Parts of settings -/

section
variable (dialect : Dialect) {entries written : List (String × Datum)}

theorem Camera.decode_entries {c : Camera} (hc : c.datum = .record written) (h : entries.Perm written) :
    decode dialect (.record entries) = .ok c := by
  cases hc
  have hformat : PixelFormat.decode dialect (.text c.format.name) = .ok c.format :=
    Decode.choice_name dialect (by decide) (by cases c.format <;> decide)
  have hfirst : entries.lookup "format" = some (.text c.format.name) := lookup_of_perm h (by simp) (by simp)
  have hsecond : entries.lookup "channels" = some (.ofByte c.channels) := lookup_of_perm h (by simp) (by simp)
  rw [decode, Decode.fields_record dialect ((h.map Prod.fst).nodup_iff.2 (by simp))]
  simp [Decode.Fields.required, Decode.Fields.orDefault, hfirst, hsecond, hformat, bind, Except.bind, pure, Except.pure]

theorem BoostPin.decode_entries {b : BoostPin} (hb : b.datum = .record written) (h : entries.Perm written) :
    decode dialect (.record entries) = .ok b := by
  cases hb
  have hport : entries.lookup "port" = some (.ofByte b.port) := lookup_of_perm h (by simp) (by simp)
  have hpin : entries.lookup "pin" = some (.ofByte b.pin) := lookup_of_perm h (by simp) (by simp)
  rw [decode, Decode.fields_record dialect ((h.map Prod.fst).nodup_iff.2 (by simp))]
  simp [Decode.Fields.required, hport, hpin, bind, Except.bind, pure, Except.pure]

theorem ClockTrim.decode_entries {t : ClockTrim} (ht : t.datum = .record written) (h : entries.Perm written) :
    decode dialect (.record entries) = .ok t := by
  cases ht
  have hword (o : Option UInt32) : Decode.orNull Decode.word (.ofOption .ofWord o) = .ok o :=
    Decode.orNull_ofOption Decode.word_ofWord Datum.ofWord_ne_null o
  have hirc8m : entries.lookup "hirc8m" = some (.ofOption .ofWord t.hirc8m) := lookup_of_perm h (by simp) (by simp)
  have hirc : entries.lookup "hirc" = some (.ofOption .ofWord t.hirc) := lookup_of_perm h (by simp) (by simp)
  have hirc96m : entries.lookup "hirc96m" = some (.ofOption .ofWord t.hirc96m) := lookup_of_perm h (by simp) (by simp)
  rw [decode, Decode.fields_record dialect ((h.map Prod.fst).nodup_iff.2 (by simp))]
  simp [Decode.Fields.optional, hirc8m, hirc, hirc96m, hword, bind, Except.bind, pure, Except.pure]

theorem OutputWidth.decode_bits (w : OutputWidth) : decode (.int w.bits) = .ok w := by
  cases w <;> rfl

theorem GroupSet.insert_of_lt {group : UInt8} {gs : List UInt8} (h : ∀ g ∈ gs, group < g) :
    insert group gs = group :: gs := by
  cases gs with
  | nil => rfl
  | cons g gs => rw [insert, if_pos (h g List.mem_cons_self)]

/-- Groups that are ascending already stay as they are. -/
theorem GroupSet.ofList_members (g : GroupSet) : ofList g.members = g := by
  obtain ⟨gs, hascending⟩ := g
  have hsorted : sorted gs = gs := by
    induction gs with
    | nil => rfl
    | cons group gs ih =>
      obtain ⟨hfirst, hrest⟩ := List.pairwise_cons.1 hascending
      rw [sorted, ih hrest, insert_of_lt hfirst]
  exact (GroupSet.mk.injEq ..).mpr hsorted

theorem GroupSet.decode_members (g : GroupSet) : decode (.list (g.members.map .ofByte)) = .ok g := by
  rw [decode, Decode.list, Decode.mapM_ok Decode.byte_ofByte]
  exact congrArg Except.ok g.ofList_members

end

namespace Settings

variable {s t : Settings} {axis : String} {d written : Datum}

/-! ## Axes and their values -/

/-- The value of an axis, as data. -/
def value (s : Settings) (axis : String) : Datum := (s.entries.lookup axis).getD .null

theorem entries_eq (s : Settings) : s.entries = axisNames.map fun axis => (axis, s.value axis) := rfl

/-- Settings that agree on every axis are the same. -/
theorem eq_of_entries (h : t.entries = s.entries) : t = s := by
  have hname {α : Type} (all : List α) {name : α → String} (hn : (all.map name).Nodup) (hall : ∀ a, a ∈ all) {a b : α}
      (hab : Datum.text (name a) = .text (name b)) : a = b :=
    Decode.injective_of_read (fun a => .text (name a)) (fun a => Decode.choice_name .json hn (hall a)) hab
  have hoption {α : Type} {value : Decoder α} {encode : α → Datum} (hread : ∀ a, value (encode a) = .ok a)
      (hnull : ∀ a, encode a ≠ .null) {o p : Option α} (hop : Datum.ofOption encode o = .ofOption encode p) : o = p :=
    Decode.injective_of_read _ (Decode.orNull_ofOption hread hnull) hop
  have hword {m n : UInt32} (hmn : Datum.ofWord m = .ofWord n) : m = n := Decode.injective_of_read _ Decode.word_ofWord hmn
  simp only [entries, List.cons.injEq, Prod.mk.injEq, true_and, and_true, Datum.bool.injEq] at h
  obtain ⟨htarget, htopology, hlayout, hcamera, hmeasure, honeshot, hstop, hfifo, hpll, hboost, hretrieval, houtput, hbias,
    hverify, hload, hverifyOutput, hforever, hmode, hsleep, hdebug, hindicator, hflash, hsram, hjtag, htrim, hweights, hdata,
    hweightsHeader, hsampleHeader, hgroups, hmaster⟩ := h
  exact (mk.injEq ..).mpr
    ⟨hname Target.all (by decide) (fun a => by cases a <;> decide) htarget,
      hname Topology.all (by decide) (fun a => by cases a <;> decide) htopology,
      hname Layout.all (by decide) (fun a => by cases a <;> decide) hlayout,
      hoption (fun _ => Camera.decode_entries .json rfl (.refl _)) (fun _ => nofun) hcamera, hmeasure,
      hword honeshot, hstop, hfifo, hpll,
      hoption (fun _ => BoostPin.decode_entries .json rfl (.refl _)) (fun _ => nofun) hboost,
      hname Retrieval.all (by decide) (fun a => by cases a <;> decide) hretrieval,
      Decode.injective_of_read (fun w => .int w.bits) OutputWidth.decode_bits houtput, hbias, hverify, hload,
      hverifyOutput, hforever, hname WaitMode.all (by decide) (fun a => by cases a <;> decide) hmode, hsleep,
      hword hdebug, hindicator, hflash, hsram, hjtag,
      hoption (fun _ => ClockTrim.decode_entries .json rfl (.refl _)) (fun _ => nofun) htrim, hweights, hdata,
      Datum.text.inj hweightsHeader, Datum.text.inj hsampleHeader,
      Decode.injective_of_read (fun g => .list (g.members.map .ofByte)) GroupSet.decode_members hgroups,
      hoption Decode.byte_ofByte Datum.ofByte_ne_null hmaster⟩

/-! ## Reading one entry -/

theorem set_of_decode {α : Type} {decode : Decoder α} {a : α} (h : decode d = .ok a) (update : α → Settings) :
    (do pure (update (← decode d)) : Except DecodeError Settings) = .ok (update a) := by
  rw [h]
  rfl

theorem set_entry (dialect : Dialect) (t : Settings) (h : (axis, d) ∈ s.entries) :
    ∃ t', t.set dialect axis d = .ok t' ∧ t'.entries = t.entries.map fun e => if e.1 = axis then (e.1, d) else e := by
  simp only [entries, List.mem_cons, Prod.mk.injEq, List.not_mem_nil, or_false] at h
  rcases h with ⟨rfl, rfl⟩ | ⟨rfl, rfl⟩ | ⟨rfl, rfl⟩ | ⟨rfl, rfl⟩ | ⟨rfl, rfl⟩ | ⟨rfl, rfl⟩ | ⟨rfl, rfl⟩ | ⟨rfl, rfl⟩ |
    ⟨rfl, rfl⟩ | ⟨rfl, rfl⟩ | ⟨rfl, rfl⟩ | ⟨rfl, rfl⟩ | ⟨rfl, rfl⟩ | ⟨rfl, rfl⟩ | ⟨rfl, rfl⟩ | ⟨rfl, rfl⟩ |
    ⟨rfl, rfl⟩ | ⟨rfl, rfl⟩ | ⟨rfl, rfl⟩ | ⟨rfl, rfl⟩ | ⟨rfl, rfl⟩ | ⟨rfl, rfl⟩ | ⟨rfl, rfl⟩ | ⟨rfl, rfl⟩ |
    ⟨rfl, rfl⟩ | ⟨rfl, rfl⟩ | ⟨rfl, rfl⟩ | ⟨rfl, rfl⟩ | ⟨rfl, rfl⟩ | ⟨rfl, rfl⟩ | ⟨rfl, rfl⟩
  · exact ⟨{ t with target := s.target },
      set_of_decode (Decode.choice_name dialect (by decide) (by cases s.target <;> decide)) _, rfl⟩
  · exact ⟨{ t with topology := s.topology },
      set_of_decode (Decode.choice_name dialect (by decide) (by cases s.topology <;> decide)) _, rfl⟩
  · exact ⟨{ t with layout := s.layout },
      set_of_decode (Decode.choice_name dialect (by decide) (by cases s.layout <;> decide)) _, rfl⟩
  · exact ⟨{ t with camera := s.camera },
      set_of_decode (Decode.orNull_ofOption (fun _ => Camera.decode_entries dialect rfl (.refl _)) (fun _ => nofun) _) _, rfl⟩
  · exact ⟨{ t with measureEnergy := s.measureEnergy }, rfl, rfl⟩
  · exact ⟨{ t with oneshot := s.oneshot }, set_of_decode (Decode.word_ofWord _) _, rfl⟩
  · exact ⟨{ t with stopStart := s.stopStart }, rfl, rfl⟩
  · exact ⟨{ t with fifo := s.fifo }, rfl, rfl⟩
  · exact ⟨{ t with pll := s.pll }, rfl, rfl⟩
  · exact ⟨{ t with boost := s.boost },
      set_of_decode (Decode.orNull_ofOption (fun _ => BoostPin.decode_entries dialect rfl (.refl _)) (fun _ => nofun) _) _, rfl⟩
  · exact ⟨{ t with retrieval := s.retrieval },
      set_of_decode (Decode.choice_name dialect (by decide) (by cases s.retrieval <;> decide)) _, rfl⟩
  · exact ⟨{ t with outputWidth := s.outputWidth }, set_of_decode s.outputWidth.decode_bits _, rfl⟩
  · exact ⟨{ t with bias := s.bias }, rfl, rfl⟩
  · exact ⟨{ t with verifyKernels := s.verifyKernels }, rfl, rfl⟩
  · exact ⟨{ t with loadKernels := s.loadKernels }, rfl, rfl⟩
  · exact ⟨{ t with verifyOutput := s.verifyOutput }, rfl, rfl⟩
  · exact ⟨{ t with forever := s.forever }, rfl, rfl⟩
  · exact ⟨{ t with waitMode := s.waitMode },
      set_of_decode (Decode.choice_name dialect (by decide) (by cases s.waitMode <;> decide)) _, rfl⟩
  · exact ⟨{ t with sleep := s.sleep }, rfl, rfl⟩
  · exact ⟨{ t with debugWait := s.debugWait }, set_of_decode (Decode.word_ofWord _) _, rfl⟩
  · exact ⟨{ t with failIndicator := s.failIndicator }, rfl, rfl⟩
  · exact ⟨{ t with bootFromFlashCache := s.bootFromFlashCache }, rfl, rfl⟩
  · exact ⟨{ t with exclusiveSram := s.exclusiveSram }, rfl, rfl⟩
  · exact ⟨{ t with jtagDebug := s.jtagDebug }, rfl, rfl⟩
  · exact ⟨{ t with clockTrim := s.clockTrim },
      set_of_decode (Decode.orNull_ofOption (fun _ => ClockTrim.decode_entries dialect rfl (.refl _)) (fun _ => nofun) _) _, rfl⟩
  · exact ⟨{ t with compactWeights := s.compactWeights }, rfl, rfl⟩
  · exact ⟨{ t with compactData := s.compactData }, rfl, rfl⟩
  · exact ⟨{ t with weightsHeader := s.weightsHeader }, rfl, rfl⟩
  · exact ⟨{ t with sampleHeader := s.sampleHeader }, rfl, rfl⟩
  · exact ⟨{ t with groups := s.groups }, set_of_decode s.groups.decode_members _, rfl⟩
  · exact ⟨{ t with master := s.master }, set_of_decode (Decode.orNull_ofOption Decode.byte_ofByte Datum.ofByte_ne_null _) _, rfl⟩

/-- The order of the entries of a part does not matter. -/
theorem set_like (h : (axis, written) ∈ s.entries) (hd : d.Like written) (dialect : Dialect) (t : Settings) :
    t.set dialect axis d = t.set dialect axis written := by
  rcases hd with rfl | ⟨entries, others, rfl, rfl, hperm⟩
  · rfl
  · have hpart {α : Type} {value : Decoder α} {encode : α → Datum} {o : Option α}
        (hread : ∀ {a fs es}, encode a = .record fs → List.Perm es fs → value (.record es) = .ok a)
        (ho : Datum.record others = .ofOption encode o) :
        Decode.orNull value (.record entries) = Decode.orNull value (.record others) := by
      cases o with
      | none => exact Datum.noConfusion ho
      | some a =>
        rw [Decode.orNull_of_ne (d := .record entries) nofun, Decode.orNull_of_ne (d := .record others) nofun,
          hread ho.symm hperm, hread ho.symm (.refl others)]
    have hbind {α : Type} {value : Decoder (Option α)} (update : Option α → Settings)
        (hvalue : value (.record entries) = value (.record others)) :
        (do pure (update (← value (.record entries))) : Except DecodeError Settings) =
          (do pure (update (← value (.record others)))) := by
      rw [hvalue]
    simp [Settings.entries, Datum.ofWord] at h
    rcases h with ⟨rfl, hcamera⟩ | ⟨rfl, hboost⟩ | ⟨rfl, htrim⟩ | ⟨rfl, hmaster⟩
    · exact hbind _ (hpart (Camera.decode_entries dialect) hcamera)
    · exact hbind _ (hpart (BoostPin.decode_entries dialect) hboost)
    · exact hbind _ (hpart (ClockTrim.decode_entries dialect) htrim)
    · cases hm : s.master <;> rw [hm] at hmaster <;> exact Datum.noConfusion hmaster

theorem names_nodup (s : Settings) : (s.entries.map Prod.fst).Nodup := show axisNames.Nodup by decide

theorem lookup_entries (s : Settings) (h : axis ∈ axisNames) : s.entries.lookup axis = some (s.value axis) := by
  refine lookup_of_mem_nodup s.names_nodup ?_
  rw [entries_eq]
  exact List.mem_map_of_mem h

theorem value_of_entries {t' : Settings} (haxis : axis ∈ axisNames)
    (h : t'.entries = t.entries.map fun e => if e.1 = axis then (e.1, d) else e) (other : String) :
    t'.value other = if other = axis then d else t.value other := by
  rw [value, h, lookup_map_replace, value]
  split
  · rename_i hsame
    rw [hsame, t.lookup_entries haxis]
    rfl
  · rfl

/-! ## Reading records -/

/-- Entries of some settings give their axes the values that they have there, and leave the others as they are. -/
theorem foldlM_set (dialect : Dialect) (t : Settings) {entries : List (String × Datum)} (h : ∀ e ∈ entries, e ∈ s.entries) :
    ∃ t', entries.foldlM (fun t e => t.set dialect e.1 e.2) t = .ok t' ∧
      ∀ axis, t'.value axis = if axis ∈ entries.map Prod.fst then s.value axis else t.value axis := by
  induction entries generalizing t with
  | nil => exact ⟨t, rfl, by simp⟩
  | cons entry entries ih =>
    obtain ⟨axis, d⟩ := entry
    obtain ⟨hfirst, hrest⟩ := List.forall_mem_cons.1 h
    obtain ⟨next, hset, hentries⟩ := set_entry dialect t hfirst
    obtain ⟨t', hfold, hvalues⟩ := ih next hrest
    have haxis : axis ∈ axisNames := List.mem_map_of_mem (f := Prod.fst) hfirst
    have hd : s.value axis = d := by
      rw [value, lookup_of_mem_nodup s.names_nodup hfirst]
      rfl
    refine ⟨t', ?_, fun other => ?_⟩
    · rw [List.foldlM_cons, hset]
      exact hfold
    · rw [hvalues, value_of_entries haxis hentries]
      by_cases hother : other = axis
      · simp [hother, hd]
      · simp only [List.map_cons, List.mem_cons, hother, false_or, if_false]

theorem foldlM_like (dialect : Dialect) (t : Settings) {entries same : List (String × Datum)}
    (h : List.Forall₂ (fun e f => e.1 = f.1 ∧ e.2.Like f.2) entries same) (hs : ∀ e ∈ same, e ∈ s.entries) :
    entries.foldlM (fun t e => t.set dialect e.1 e.2) t = same.foldlM (fun t e => t.set dialect e.1 e.2) t := by
  induction h generalizing t with
  | nil => rfl
  | @cons e f entries same hhead _ ih =>
    obtain ⟨axis, d⟩ := e
    obtain ⟨_, written⟩ := f
    obtain ⟨rfl, hlike⟩ := hhead
    obtain ⟨hfirst, hrest⟩ := List.forall_mem_cons.1 hs
    rw [List.foldlM_cons, List.foldlM_cons, set_like hfirst hlike]
    congr 1
    funext next
    exact ih next hrest

/-- Some of the entries of settings are read as these settings with the initial value for every other axis. -/
theorem decode_part (dialect : Dialect) {entries same : List (String × Datum)}
    (h : List.Forall₂ (fun e f => e.1 = f.1 ∧ e.2.Like f.2) entries same) (hs : ∀ e ∈ same, e ∈ s.entries)
    (hn : (same.map Prod.fst).Nodup) : ∃ t, decode dialect (.record entries) = .ok t ∧
      ∀ axis, t.value axis = if axis ∈ same.map Prod.fst then s.value axis else initial.value axis := by
  obtain ⟨t, hfold, hvalues⟩ := foldlM_set dialect initial hs
  have hnames : entries.map Prod.fst = same.map Prod.fst := by
    have hkeys : List.Forall₂ (· = ·) (entries.map Prod.fst) (same.map Prod.fst) := by
      rw [List.forall₂_map_left_iff, List.forall₂_map_right_iff]
      exact h.imp fun _ _ hef => hef.1
    rwa [List.forall₂_eq_eq_eq] at hkeys
  refine ⟨t, ?_, hvalues⟩
  rw [decode, Decode.leadingFields_record (hnames ▸ hn)]
  change (entries.foldlM (fun t e => t.set dialect e.1 e.2) initial >>= _) = _
  rw [foldlM_like dialect initial h hs, hfold]
  rfl

/-- Whatever the order of its entries, the record of some settings is read as these settings. -/
theorem decode_shuffled (dialect : Dialect) {entries : List (String × Datum)} (h : Datum.Shuffled entries s.entries) :
    decode dialect (.record entries) = .ok s := by
  obtain ⟨same, hlike, hperm⟩ := h
  have hnames : (same.map Prod.fst).Perm axisNames := hperm.map Prod.fst
  obtain ⟨t, hdecode, hvalues⟩ := decode_part dialect hlike (fun e he => hperm.mem_iff.1 he)
    (hnames.nodup_iff.2 s.names_nodup)
  have hsame : t.entries = s.entries := by
    rw [entries_eq, entries_eq]
    refine List.map_congr_left fun axis haxis => ?_
    rw [hvalues, if_pos (hnames.mem_iff.2 haxis)]
  rw [hdecode, eq_of_entries hsame]

/-! ## Configurations -/

theorem build_eq_ok_iff {c : Configuration} : s.build = .ok c ↔ c.toSettings = s := by
  rw [build]
  constructor
  · intro h
    split at h
    · cases h
      rfl
    · cases h
  · rintro rfl
    split
    · rfl
    · rename_i e he
      rw [c.legal] at he
      cases he

/-- A configuration has the settings that it was built from. Its record, in whatever order, is read as these settings, and they
build the same configuration again. -/
theorem build_reads_back {c : Configuration} (h : s.build = .ok c) :
    c.toSettings = s ∧ decode .json c.datum = .ok s ∧
    ∀ entries, Datum.Shuffled entries c.entries →
      ∃ again, decode .json (.record entries) = .ok again ∧ again.build = .ok c := by
  obtain rfl : c.toSettings = s := build_eq_ok_iff.1 h
  refine ⟨rfl, decode_shuffled .json (.refl c.entries), fun entries hentries => ?_⟩
  exact ⟨c.toSettings, decode_shuffled .json hentries, h⟩

/-- Settings with a value in every axis that may be without one. -/
def furnished : Settings :=
  { initial with
    target := .embedded
    layout := .splitApi
    camera := some ⟨.rgb565, 3⟩
    oneshot := 4294967295
    boost := some ⟨2, 5⟩
    outputWidth := .w32
    clockTrim := some ⟨none, some 7, none⟩
    weightsHeader := "\"we\\ights\".h"
    groups := .ofList [3, 0, 3]
    master := some 3 }

theorem build_reads_back_furnished : ∃ c again, furnished.build = .ok c ∧
    decode .json (.record c.entries.reverse) = .ok again ∧ again.build = .ok c ∧ again.groups.members = [0, 3] := by
  have hbuild : furnished.build = .ok ⟨furnished, by decide⟩ := build_eq_ok_iff.2 rfl
  obtain ⟨-, -, hread⟩ := build_reads_back hbuild
  have hreverse : Datum.Shuffled furnished.entries.reverse furnished.entries :=
    ⟨_, List.forall₂_same.2 fun _ _ => ⟨rfl, Or.inl rfl⟩, List.reverse_perm _⟩
  obtain ⟨again, hdecode, hagain⟩ := hread _ hreverse
  exact ⟨_, again, hbuild, hdecode, hagain, by rw [← build_eq_ok_iff.1 hagain]; rfl⟩

end Settings

end AccelFirmware
