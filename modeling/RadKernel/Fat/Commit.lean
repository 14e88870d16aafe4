import RadKernel.Fat.Chains

/-!
# What closing a file writes back

`fat_close` writes the size and the first cluster that the handle has into the directory entry,
also when nothing was written through the handle. What another handle put there since the file was
opened is then lost.
-/

namespace RadKernel.Fat

open Kernel Prog Buffer Function

variable {g : FatContext} {h k : Fin maxOpenFiles} {s t : FatState} {flags : Nat}
  {path : List UInt8} {bytes : List UInt8}

/-! ## One call -/

/-- Size and first cluster. -/
abbrev Extent := Nat × Nat

def FatFile.extent (file : FatFile) : Extent := (file.size, file.firstCluster)

/-- The entry that `fat_close` reads and writes. -/
def recordedEntry (g : FatContext) (d : Disk) (file : FatFile) : FatDirEntry := fun i =>
  d (u32 (clusterFirstSector g file.dirCluster + file.dirOffset / sectorSize))
    (file.dirOffset % sectorSize + i)

/-- What the directory entry of a handle says. -/
def committed (g : FatContext) (d : Disk) (file : FatFile) : Extent :=
  ((recordedEntry g d file).size, (recordedEntry g d file).firstCluster)

theorem size_lt (e : FatDirEntry) : e.size < 2 ^ 32 := le32_lt _ _

theorem firstCluster_lt (e : FatDirEntry) : e.firstCluster < 2 ^ 32 := by
  have := le16_lt e 20
  have := le16_lt e 26
  unfold FatDirEntry.firstCluster
  omega

/-- A handle that was just opened, or not written through since. -/
structure FatFile.Settled (file : FatFile) (found : Extent) : Prop where
  extent : file.extent = found
  position_le : file.position ≤ file.size
  size_lt : file.size < 2 ^ 32
  firstCluster_lt : file.firstCluster < 2 ^ 32

theorem fatOpen_triple :
    Triple (· = s) (fatOpen g path flags)
      (fun h t => (∀ k, k ≠ h → t.files k = s.files k) ∧
        (t.files h).Settled (t.files h).extent)
      fun _ t => t.files = s.files := by
  unfold fatOpen
  split
  case h_1 => exact Triple.fail fun t ht => ht ▸ rfl
  case h_2 name _ =>
    have hany : Triple (· = s.disk) (openEntry g name flags) (fun _ _ => True) fun _ _ => True := by
      rintro d - (e | a) d' - <;> trivial
    refine Triple.bind ((withDisk_triple hany).post (fun _ _ ht => ht.2) fun _ _ ht => ht.2) ?_
    rintro ⟨entry, offset⟩
    refine Triple.bind_read fun t ht => ?_
    split
    case h_1 => exact Triple.fail fun u hu => hu ▸ ht
    case h_2 h hfree =>
      refine setFile_bind (Triple.pure ?_)
      rintro u rfl
      refine ⟨fun k hk => ?_, ?_⟩
      · dsimp only
        rw [update_of_ne hk, ht]
      · dsimp only
        rw [update_self]
        refine ⟨rfl, ?_, size_lt _, firstCluster_lt _⟩
        dsimp only
        split <;> omega

/-- `fat_write` may give its handle a first cluster before it fails. -/
structure Restarted (s : FatState) (h : Fin maxOpenFiles) (t : FatState) : Prop where
  others : ∀ k, k ≠ h → t.files k = s.files k
  same : t.files h = { s.files h with firstCluster := (t.files h).firstCluster }

theorem Restarted.refl (s : FatState) (h : Fin maxOpenFiles) : Restarted s h s :=
  ⟨fun _ _ => rfl, rfl⟩

theorem Restarted.setDisk {u : FatState} (ht : Restarted s h t) (hu : u.files = t.files) :
    Restarted s h u := by
  refine ⟨fun k hk => ?_, ?_⟩
  · rw [hu]
    exact ht.others k hk
  · rw [hu]
    exact ht.same

/-- The disk changes, and not the files. -/
theorem withDisk_restarted {α : Type} {x : DiskM α} :
    Triple (Restarted s h) (withDisk x) (fun _ => Restarted s h) fun _ => Restarted s h := by
  refine Triple.focus fun t ht d _ r d' _ => ?_
  cases r <;> exact ht.setDisk rfl

theorem clusterAt_restarted {index : Nat} {allocate : Bool} :
    Triple (Restarted s h) (clusterAt g h index allocate) (fun _ => Restarted s h)
      fun _ => Restarted s h := by
  refine Triple.bind_read fun t ht => ?_
  have hsame : Triple (· = t) (withDisk (followChain g allocate index (t.files h).firstCluster))
      (fun _ => Restarted s h) fun _ => Restarted s h :=
    withDisk_restarted.pre fun u hu => hu ▸ ht
  refine Triple.ite (fun _ => Triple.ite (fun _ => ?_) fun _ => Triple.pure fun u hu => hu ▸ ht)
    fun _ => hsame
  refine Triple.bind (withDisk_restarted.pre fun u hu => hu ▸ ht) fun first => ?_
  refine Triple.of_forall fun u hu => setFile_bind (withDisk_restarted.pre ?_)
  rintro v rfl
  refine ⟨fun k hk => ?_, ?_⟩
  · dsimp only
    rw [update_of_ne hk]
    exact hu.others k hk
  · dsimp only
    rw [update_self, ht.same]

theorem writeRounds_restarted {position rounds done : Nat} :
    Triple (Restarted s h) (writeRounds g h position bytes rounds done) (fun _ => Restarted s h)
      fun _ => Restarted s h := by
  induction rounds generalizing done with
  | zero => exact Triple.pure fun _ hs => hs
  | succ rounds ih =>
    refine Triple.ite (fun _ => ?_) fun _ => Triple.pure fun _ hs => hs
    refine Triple.bind clusterAt_restarted fun cluster => ?_
    refine Triple.bind withDisk_restarted fun buffer => ?_
    exact Triple.bind withDisk_restarted fun _ => ih

theorem fatWrite_triple :
    Triple (· = s) (fatWrite g h bytes) (fun _ t => ∀ k, k ≠ h → t.files k = s.files k)
      fun _ => Restarted s h := by
  refine Triple.bind_read fun t ht => ?_
  subst ht
  have hstart : ∀ u, u = t → Restarted t h u := fun u hu => hu ▸ Restarted.refl t h
  refine Triple.ite (fun _ => Triple.fail hstart) fun _ => ?_
  refine Triple.bind (writeRounds_restarted.pre hstart) fun done => ?_
  refine Triple.bind_read fun u hu => setFile_bind (Triple.pure ?_)
  rintro v rfl k hk
  dsimp only
  rw [update_of_ne hk]
  exact hu.others k hk

/-- Writing nothing leaves a handle that is not behind the end of its file as it is. -/
theorem fatWrite_nil {r : Except Status Nat} (hle : (s.files h).position ≤ (s.files h).size)
    (hlt : (s.files h).size < 2 ^ 32) (hrun : fatWrite g h [] s = some (r, t)) : t = s := by
  by_cases hbad : (s.files h).used = false ∨ (s.files h).flags &&& vfsWrite = 0
  · simp only [fatWrite, bind_apply, read_apply, if_pos hbad, fail_apply] at hrun
    cases hrun
    rfl
  · have hposition : u32 ((s.files h).position + 0) = (s.files h).position :=
      Nat.mod_eq_of_lt (by omega)
    simp only [fatWrite, bind_apply, read_apply, if_neg hbad, List.length_nil, writeRounds,
      pure_apply, hposition, Nat.max_eq_left hle, setFile, modify_apply,
      update_eq_self] at hrun
    cases hrun
    rfl

/-- The disk with the entry of a handle written back. -/
def rewritten (g : FatContext) (d : Disk) (file : FatFile) : Disk :=
  let sector := u32 (clusterFirstSector g file.dirCluster + file.dirOffset / sectorSize)
  Function.update d sector (store (d sector) (file.dirOffset % sectorSize)
    ((List.range entrySize).map (writtenBack file (recordedEntry g d file))))

theorem fatClose_run (hused : (s.files h).used = true) :
    fatClose g h s = some (.ok (),
      { disk := rewritten g s.disk (s.files h), files := update s.files h {} }) := by
  have hnot : ¬(s.files h).used = false := by simp [hused]
  simp only [fatClose, bind_apply, read_apply, if_neg hnot]
  rfl

theorem recordedEntry_rewritten (g : FatContext) (d : Disk) (file : FatFile) :
    SameEntry (writtenBack file (recordedEntry g d file))
      (recordedEntry g (rewritten g d file) file) := by
  intro i hi
  rw [recordedEntry, rewritten, update_self, store_add]
  simp [hi]

theorem store_same {b : Bytes} {o : Nat} {data : List UInt8}
    (h : ∀ i < data.length, data[i]?.getD 0 = b (o + i)) : store b o data = b := by
  funext i
  by_cases hlow : i < o
  · exact store_below hlow
  by_cases hhigh : o + data.length ≤ i
  · exact store_above hhigh
  · have hi := h (i - o) (by omega)
    have hin : i - o < data.length := by omega
    rw [List.getElem?_eq_getElem hin, Nat.add_sub_of_le (by omega)] at hi
    rw [store, if_pos (by omega), List.getElem?_eq_getElem hin]
    exact hi

theorem le16Bytes_congr {v w : Nat} (h : v % 65536 = w % 65536) : le16Bytes v = le16Bytes w := by
  simp only [le16Bytes, List.cons.injEq, and_true]
  constructor
  · apply UInt8.toNat.inj
    simp only [Nat.toUInt8, UInt8.toNat_ofNat']
    omega
  · apply UInt8.toNat.inj
    simp only [Nat.toUInt8, UInt8.toNat_ofNat']
    omega

theorem le16Bytes_le16 (b : Bytes) (i : Nat) : le16Bytes (le16 b i) = [b i, b (i + 1)] := by
  have := (b i).toNat_lt
  have := (b (i + 1)).toNat_lt
  simp only [le16Bytes, le16, List.cons.injEq, and_true]
  constructor
  · apply UInt8.toNat.inj
    simp
  · apply UInt8.toNat.inj
    simp
    omega

theorem store_le16 (b : Bytes) (i : Nat) : store b i (le16Bytes (le16 b i)) = b := by
  refine store_same fun k hk => ?_
  rw [le16Bytes_le16] at hk ⊢
  match k, hk with
  | 0, _ => rfl
  | 1, _ => rfl

theorem store_le32 (b : Bytes) (i : Nat) : store b i (le32Bytes (le32 b i)) = b := by
  have := le16_lt b i
  have hlow : le16Bytes (le32 b i) = le16Bytes (le16 b i) := by
    apply le16Bytes_congr
    unfold le32
    omega
  have hhigh : le32 b i / 65536 = le16 b (i + 2) := by
    unfold le32
    omega
  refine store_same fun k hk => ?_
  rw [le32Bytes, hlow, hhigh, le16Bytes_le16, le16Bytes_le16] at hk ⊢
  match k, hk with
  | 0, _ => rfl
  | 1, _ => rfl
  | 2, _ => rfl
  | 3, _ => rfl

variable {file : FatFile}

theorem writtenBack_same {e : FatDirEntry}
    (h : file.extent = (e.size, e.firstCluster)) : writtenBack file e = e := by
  obtain ⟨hsize, hfirst⟩ := Prod.mk.inj h
  have := le16_lt e 26
  have hhigh : e.firstCluster / 65536 = le16 e 20 := by
    unfold FatDirEntry.firstCluster
    omega
  have hlow : le16Bytes e.firstCluster = le16Bytes (le16 e 26) := by
    apply le16Bytes_congr
    unfold FatDirEntry.firstCluster
    omega
  rw [writtenBack, hsize, hfirst, FatDirEntry.setSize, FatDirEntry.size, store_le32,
    FatDirEntry.setFirstCluster, hhigh, hlow, store_le16, store_le16]

variable {d : Disk}

theorem committed_rewritten {found : Extent} (h : file.Settled found) :
    committed g (rewritten g d file) file = found := by
  have hsame := recordedEntry_rewritten g d file
  rw [committed, hsame.size, hsame.firstCluster, writtenBack, size_setFirstCluster,
    size_setSize h.size_lt, firstCluster_setFirstCluster h.firstCluster_lt]
  exact h.extent

theorem rewritten_same (h : file.extent = committed g d file) : rewritten g d file = d := by
  rw [rewritten]
  rw [writtenBack_same h, store_same, update_eq_self]
  intro i hi
  simp only [List.length_map, List.length_range] at hi
  simp [hi, recordedEntry]

/-! ## Runs -/

/-- The files, the extent that `fat_open` found for each handle, and whether the handle was written
through since. -/
structure Tracked where
  fat : FatState
  found : Fin maxOpenFiles → Extent := fun _ => (0, 0)
  wrote : Fin maxOpenFiles → Bool := fun _ => false

/-- Bytes were written, or a chain was started for them. -/
def WroteThrough (s : FatState) (h : Fin maxOpenFiles) (bytes : List UInt8)
    (r : Except Status Nat) (t : FatState) : Prop :=
  (r.isOk ∧ bytes ≠ []) ∨ (t.files h).firstCluster ≠ (s.files h).firstCluster

instance {r : Except Status Nat} : Decidable (WroteThrough s h bytes r t) :=
  inferInstanceAs (Decidable (_ ∨ _))

namespace Tracked

variable {a b : Tracked}

def step (g : FatContext) (a : Tracked) : Call → Option Tracked
  | .openPath path flags =>
    (fatOpen g path flags a.fat).map fun (r, t) =>
      match r with
      | .error _ => { a with fat := t }
      | .ok h =>
        { fat := t
          found := Function.update a.found h (t.files h).extent
          wrote := Function.update a.wrote h false }
  | .write h bytes =>
    (fatWrite g h bytes a.fat).map fun (r, t) =>
      { a with
        fat := t
        wrote := Function.update a.wrote h (a.wrote h || WroteThrough a.fat h bytes r t) }
  | call => (perform g a.fat call).map fun t => { a with fat := t }

/-- Opening, reading, writing and closing. -/
def Step (g : FatContext) (a : Tracked) (call : Call) (b : Tracked) : Prop :=
  (∀ h offset origin, call ≠ .seek h offset origin) ∧ a.step g call = some b

/-- No file was opened. -/
def Unopened (a : Tracked) : Prop := a.fat.files = fun _ => {}

/-- The handles that were not written through have what they were opened with. -/
def AllSettled (a : Tracked) : Prop :=
  ∀ h, (a.fat.files h).used = true → a.wrote h = false → (a.fat.files h).Settled (a.found h)

theorem Unopened.allSettled (h : Unopened a) : AllSettled a := by
  intro k hk
  rw [h] at hk
  cases hk

/-- A call that leaves the files, or changes only one of them and keeps it settled. -/
theorem AllSettled.of_file (ha : AllSettled a) (hother : ∀ k, k ≠ h → t.files k = a.fat.files k)
    (hself : (t.files h).used = true → a.wrote h = false → (t.files h).Settled (a.found h)) :
    AllSettled { a with fat := t } := by
  intro k hk hwrote
  by_cases hkh : k = h
  · subst hkh
    exact hself hk hwrote
  · dsimp only at hk ⊢
    rw [hother k hkh] at hk ⊢
    exact ha k hk hwrote

theorem AllSettled.step (ha : AllSettled a) {call : Call} (hstep : Step g a call b) :
    AllSettled b := by
  obtain ⟨hseek, hrun⟩ := hstep
  cases call with
  | openPath path flags =>
    obtain ⟨⟨r, t⟩, hopen, rfl⟩ := Option.map_eq_some_iff.1 hrun
    cases r with
    | error e =>
      have hfiles : t.files = a.fat.files := fatOpen_triple.error rfl hopen
      intro k
      rw [hfiles]
      exact ha k
    | ok h =>
      obtain ⟨hother, hsettled⟩ := fatOpen_triple.ok rfl hopen
      intro k hk hwrote
      dsimp only at hk hwrote ⊢
      by_cases hkh : k = h
      · subst hkh
        rwa [update_self]
      · rw [hother k hkh] at hk ⊢
        rw [update_of_ne hkh] at hwrote ⊢
        exact ha k hk hwrote
  | read h size =>
    obtain ⟨u, hperform, rfl⟩ := Option.map_eq_some_iff.1 hrun
    obtain ⟨⟨r, t⟩, hread, rfl⟩ := Option.map_eq_some_iff.1 hperform
    cases r with
    | error e =>
      obtain rfl : t = a.fat := fatRead_triple.error rfl hread
      exact ha
    | ok out =>
      obtain ⟨position, hposition, rfl⟩ := fatRead_triple.ok rfl hread
      refine ha.of_file (fun k hk => moved_files_of_ne hk _) fun hused hwrote => ?_
      rw [moved_files_self] at hused ⊢
      have hsettled := ha h hused hwrote
      have hle := hsettled.position_le
      exact ⟨hsettled.extent, by dsimp only; omega, hsettled.size_lt, hsettled.firstCluster_lt⟩
  | write h bytes =>
    obtain ⟨⟨r, t⟩, hwrite, rfl⟩ := Option.map_eq_some_iff.1 hrun
    have hother : ∀ k, k ≠ h → t.files k = a.fat.files k := by
      cases r with
      | error e => exact (fatWrite_triple.error rfl hwrite).others
      | ok n => exact fatWrite_triple.ok rfl hwrite
    intro k hk hwrote
    dsimp only at hk hwrote ⊢
    by_cases hkh : k = h
    case neg =>
      rw [update_of_ne hkh] at hwrote
      rw [hother k hkh] at hk ⊢
      exact ha k hk hwrote
    subst hkh
    rw [update_self, Bool.or_eq_false_iff, decide_eq_false_iff_not, WroteThrough,
      not_or, not_and, not_not, not_not] at hwrote
    obtain ⟨hwrote, hempty, hfirst⟩ := hwrote
    -- nothing in the handle changed
    suffices t.files k = a.fat.files k by
      rw [this] at hk ⊢
      exact ha k hk hwrote
    cases r with
    | error e =>
      have hsame := (fatWrite_triple.error rfl hwrite).same
      rwa [hfirst] at hsame
    | ok n =>
      obtain rfl := hempty rfl
      have hused : (a.fat.files k).used = true := by
        by_contra hused
        rw [fatWrite_unused hused] at hwrite
        cases hwrite
      have hsettled := ha k hused hwrote
      rw [fatWrite_nil hsettled.position_le hsettled.size_lt hwrite]
  | seek h offset origin => exact absurd rfl (hseek h offset origin)
  | close h =>
    obtain ⟨u, hperform, rfl⟩ := Option.map_eq_some_iff.1 hrun
    obtain ⟨⟨r, t⟩, hclose, rfl⟩ := Option.map_eq_some_iff.1 hperform
    by_cases hused : (a.fat.files h).used = true
    · rw [fatClose_run hused] at hclose
      cases hclose
      refine ha.of_file (fun k hk => update_of_ne hk ..) fun hused => ?_
      dsimp only at hused
      rw [update_self] at hused
      cases hused
    · rw [fatClose_unused hused] at hclose
      cases hclose
      exact ha

theorem allSettled_of_run (hrun : Run (Step g) Unopened a) : AllSettled a :=
  hrun.invariant (fun _ h => h.allSettled) fun _ _ _ ha hstep => ha.step hstep

end Tracked

/-- After any calls, closing a handle that was not written through leaves size and first cluster in
its directory entry just when they are those that it was opened with, and then nothing on the disk
changes. -/
theorem committed_close_iff {a : Tracked} (hrun : Run (Tracked.Step g) Tracked.Unopened a)
    (hused : (a.fat.files h).used = true) (hwrote : a.wrote h = false) :
    ∃ t, fatClose g h a.fat = some (.ok (), t) ∧
      (committed g t.disk (a.fat.files h) = committed g a.fat.disk (a.fat.files h) ↔
        committed g a.fat.disk (a.fat.files h) = a.found h) ∧
      (committed g a.fat.disk (a.fat.files h) = a.found h → t.disk = a.fat.disk) := by
  have hsettled := Tracked.allSettled_of_run hrun h hused hwrote
  refine ⟨_, fatClose_run hused, ?_, fun heq => ?_⟩
  · rw [committed_rewritten hsettled, eq_comm]
  · exact rewritten_same (hsettled.extent.trans heq.symm)

/-! ## A reader and a writer -/

theorem Tracked.run_of_calls {a b : Tracked} (calls : List Call)
    (hrun : Run (Tracked.Step g) Tracked.Unopened a)
    (hseek : ∀ call ∈ calls, ∀ h offset origin, call ≠ .seek h offset origin)
    (hcalls : calls.foldlM (Tracked.step g) a = some b) :
    Run (Tracked.Step g) Tracked.Unopened b := by
  induction calls generalizing a with
  | nil =>
    cases hcalls
    exact hrun
  | cons call calls ih =>
    obtain ⟨c, hc, hrest⟩ := Option.bind_eq_some_iff.1 hcalls
    exact ih (hrun.step ⟨hseek call (by simp), hc⟩) (fun c hc => hseek c (by simp [hc])) hrest

/-- The small volume, before any call. -/
def trackedStart : Tracked := { fat := demoStart }

theorem unopened_trackedStart : Tracked.Unopened trackedStart := rfl

/-- `A` is opened for reading. -/
def readerCalls : List Call := [.openPath [65] vfsRead]

theorem committed_close_reader :
    ∃ a t, readerCalls.foldlM (Tracked.step demoContext) trackedStart = some a ∧
      fatClose demoContext firstFile a.fat = some (.ok (), t) ∧
      (committed demoContext t.disk (a.fat.files firstFile) =
          committed demoContext a.fat.disk (a.fat.files firstFile) ↔
        committed demoContext a.fat.disk (a.fat.files firstFile) = a.found firstFile) ∧
      (committed demoContext a.fat.disk (a.fat.files firstFile) = a.found firstFile →
        t.disk = a.fat.disk) := by
  have hfields : (readerCalls.foldlM (Tracked.step demoContext) trackedStart).map
      (fun a => ((a.fat.files firstFile).used, a.wrote firstFile)) = some (true, false) := by
    decide +kernel
  obtain ⟨a, ha, hvalues⟩ := Option.map_eq_some_iff.1 hfields
  obtain ⟨hused, hwrote⟩ := Prod.mk.inj hvalues
  have hrun := Tracked.run_of_calls readerCalls (Run.start unopened_trackedStart)
    (by simp [readerCalls]) ha
  obtain ⟨t, ht⟩ := committed_close_iff hrun hused hwrote
  exact ⟨a, t, ha, ht⟩

/-- `A` is opened for reading and for writing, three bytes are written, and the writer is closed. -/
def writerCalls : List Call :=
  [.openPath [65] vfsRead, .openPath [65] vfsWrite, .write ⟨1, by decide⟩ [1, 2, 3],
    .close ⟨1, by decide⟩]

/-- Then the reader is closed, and the file has size 0 again. -/
theorem not_committed_writer :
    ¬ ∀ g a h, Run (Tracked.Step g) Tracked.Unopened a → (a.fat.files h).used = true →
      a.wrote h = false → ∀ t, fatClose g h a.fat = some (.ok (), t) →
        committed g t.disk (a.fat.files h) = committed g a.fat.disk (a.fat.files h) := by
  intro hall
  have hfields : (writerCalls.foldlM (Tracked.step demoContext) trackedStart).map
      (fun a => ((a.fat.files firstFile).used, a.wrote firstFile,
        committed demoContext a.fat.disk (a.fat.files firstFile),
        committed demoContext (rewritten demoContext a.fat.disk (a.fat.files firstFile))
          (a.fat.files firstFile))) = some (true, false, (3, 3), (0, 3)) := by
    decide +kernel
  obtain ⟨a, ha, hvalues⟩ := Option.map_eq_some_iff.1 hfields
  obtain ⟨hused, hrest⟩ := Prod.mk.inj hvalues
  obtain ⟨hwrote, hrest⟩ := Prod.mk.inj hrest
  obtain ⟨hbefore, hafter⟩ := Prod.mk.inj hrest
  have hrun := Tracked.run_of_calls writerCalls (Run.start unopened_trackedStart)
    (by simp [writerCalls]) ha
  have hsame := hall _ _ _ hrun hused hwrote _ (fatClose_run hused)
  rw [hafter, hbefore] at hsame
  cases hsame

end RadKernel.Fat
