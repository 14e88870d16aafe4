import RadKernel.Fat.Volume

/-!
# Reading and writing files

`fat_read` changes the position of its handle. `fat_write` makes the chain of its handle longer,
or starts it, and writes sectors of that chain.
-/

namespace RadKernel.Fat

open Kernel Prog Function
open Returns (read)

variable {g : FatContext} {d d₀ : Disk} {ι : Type} {first : ι → Nat} {o : ι} {c index : Nat}
  {kept : Nat → Prop} {h : Fin maxOpenFiles} {s s' : FatState} {files : Fin maxOpenFiles → FatFile}
  {allocate : Bool}

/-! ## Reading -/

/-- The program leaves the state as it is. -/
def Reads {σ α : Type} (x : Prog Status σ α) : Prop :=
  ∀ s, Triple (· = s) x (fun _ s' => s' = s) fun _ s' => s' = s

namespace Reads

variable {σ α β : Type}

theorem pure (a : α) : Reads (Pure.pure a : Prog Status σ α) := fun _ => Triple.pure fun _ hs => hs

theorem query (q : Query Status σ α) : Reads (Prog.query q) :=
  fun _ => Triple.query (fun _ _ hs _ => hs) fun _ _ hs _ => hs

variable {x : Prog Status σ α}

theorem bind {f : α → Prog Status σ β} (hx : Reads x) (hf : ∀ a, Reads (f a)) : Reads (x >>= f) :=
  fun s => Triple.bind (hx s) fun a => hf a s

theorem ite {p : Prop} [Decidable p] {y : Prog Status σ α} (hx : Reads x) (hy : Reads y) :
    Reads (if p then x else y) :=
  fun s => Triple.ite (fun _ => hx s) fun _ => hy s

theorem withDisk {x : DiskM α} (hx : Reads x) : Reads (withDisk x) := by
  refine fun s => Triple.focus fun t ht d hd r d' hrun => ?_
  subst ht hd
  have hsame : d' = t.disk := by
    cases r with
    | ok a => exact (hx _).ok rfl hrun
    | error e => exact (hx _).error rfl hrun
  subst hsame
  cases r <;> rfl

end Reads

/-- Without allocation a chain is only looked at. -/
theorem followChain_reads : Reads (followChain g false index c) := by
  induction index generalizing c with
  | zero => exact Reads.pure _
  | succ index ih =>
    exact (Reads.query _).bind fun next => Reads.ite (Reads.pure _) ih

theorem clusterAt_reads : Reads (clusterAt g h index false) := by
  refine fun s => Triple.bind_read fun t ht => ?_
  subst ht
  exact Triple.ite (fun _ => Reads.pure _ _) fun _ => followChain_reads.withDisk _

/-- At most what remains is copied. -/
theorem readRounds_triple {position remaining rounds : Nat} {out : List UInt8}
    (hout : out.length ≤ remaining) :
    Triple (· = s) (readRounds g h position remaining rounds out)
      (fun out s' => s' = s ∧ out.length ≤ remaining) fun _ s' => s' = s := by
  induction rounds generalizing out with
  | zero => exact Triple.pure fun _ hs => ⟨hs, hout⟩
  | succ rounds ih =>
    refine Triple.ite (fun _ => ?_) fun _ => Triple.pure fun _ hs => ⟨hs, hout⟩
    refine Triple.bind (clusterAt_reads s) fun cluster => ?_
    refine Triple.ite (fun _ => Triple.pure fun _ hs => ⟨hs, hout⟩) fun _ => ?_
    refine Triple.bind ((Reads.query _).withDisk s) fun buffer => ih ?_
    simp only [List.length_append, List.length_map, List.length_range]
    omega

def moved (s : FatState) (h : Fin maxOpenFiles) (position : Nat) : FatState :=
  { s with files := Function.update s.files h { s.files h with position } }

@[simp] theorem moved_disk (s : FatState) (h : Fin maxOpenFiles) (position : Nat) :
    (moved s h position).disk = s.disk := rfl

@[simp] theorem moved_files_self (s : FatState) (h : Fin maxOpenFiles) (position : Nat) :
    (moved s h position).files h = { s.files h with position } := update_self ..

@[simp] theorem moved_files_of_ne {k : Fin maxOpenFiles} (hk : k ≠ h) (position : Nat) :
    (moved s h position).files k = s.files k := update_of_ne hk ..

variable {α : Type}

theorem setFile_bind {rest : FatM α} {Q : α → FatState → Prop}
    {E : Status → FatState → Prop} {file : FatFile}
    (hrest : Triple (· = { s with files := update s.files h file }) rest Q E) :
    Triple (· = s) (setFile h file >>= fun _ => rest) Q E := by
  refine Triple.bind (Triple.modify fun t ht => ?_) fun _ => hrest
  subst ht
  rfl

theorem fatRead_triple {size : Nat} :
    Triple (· = s) (fatRead g h size)
      (fun _ s' => ∃ position, position ≤ max (s.files h).position (s.files h).size ∧
        s' = moved s h position)
      fun _ s' => s' = s := by
  refine Triple.bind_read fun t ht => ?_
  subst ht
  refine Triple.ite (fun _ => Triple.fail fun _ hs => hs) fun _ => ?_
  refine Triple.bind (readRounds_triple (Nat.zero_le _)) fun out => ?_
  refine Triple.bind_read fun u hu => ?_
  obtain ⟨rfl, hlength⟩ := hu
  refine setFile_bind (Triple.pure fun v hv => ⟨_, ?_, hv⟩)
  rw [u32]
  omega

theorem fatSeek_triple {offset : Int} {origin : SeekOrigin} :
    Triple (· = s) (fatSeek h offset origin)
      (fun _ s' => ∃ position, s' = moved s h position)
      fun _ s' => s' = s := by
  refine Triple.bind_read fun t ht => ?_
  subst ht
  refine Triple.ite (fun _ => Triple.fail fun _ hs => hs) fun _ => ?_
  refine Triple.ite (fun _ => Triple.fail fun _ hs => hs) fun _ => ?_
  refine Triple.modify fun u hu => ?_
  subst hu
  exact ⟨_, rfl⟩

/-! ## Writing -/

theorem withDisk_triple {x : DiskM α} {Q : α → Disk → Prop} {E : Status → Disk → Prop}
    (hx : Triple (· = s.disk) x Q E) :
    Triple (· = s) (withDisk x) (fun a s' => Q a s'.disk ∧ s'.files = s.files)
      fun e s' => E e s'.disk ∧ s'.files = s.files := by
  refine Triple.focus fun t ht d hd r d' hrun => ?_
  subst ht hd
  cases r with
  | ok a => exact ⟨hx.ok rfl hrun, rfl⟩
  | error e => exact ⟨hx.error rfl hrun, rfl⟩

theorem allocateCluster_triple (hg : Layout g) :
    Triple (· = d) (allocateCluster g)
      (fun x d' => InRange g x ∧ links g d x = 0 ∧ d' = taken g d x) fun _ d' => d' = d := by
  intro t ht r d' hrun
  subst ht
  rcases allocateCluster_cases hg t with ⟨x, hx, hfree, htake⟩ | hfull
  · rw [htake] at hrun
    cases hrun
    exact ⟨hx, hfree, rfl⟩
  · rw [hfull] at hrun
    cases hrun
    rfl

/-- What the calls on an open file do not change. -/
structure SameHandle (file file' : FatFile) : Prop where
  used : file'.used = file.used
  dirCluster : file'.dirCluster = file.dirCluster
  dirOffset : file'.dirOffset = file.dirOffset
  flags : file'.flags = file.flags

theorem SameHandle.refl (file : FatFile) : SameHandle file file := ⟨rfl, rfl, rfl, rfl⟩

theorem SameHandle.trans {a b c : FatFile} (h : SameHandle a b) (h' : SameHandle b c) :
    SameHandle a c :=
  ⟨h'.used.trans h.used, h'.dirCluster.trans h.dirCluster, h'.dirOffset.trans h.dirOffset,
    h'.flags.trans h.flags⟩

/-- Handle `h` is written through: the chain that its owner `o` had may have been started and may
have grown. -/
structure Writing [DecidableEq ι] (g : FatContext) (kept : Nat → Prop) (d₀ : Disk) (first : ι → Nat)
    (o : ι) (files : Fin maxOpenFiles → FatFile) (h : Fin maxOpenFiles) (s : FatState) : Prop where
  others : ∀ k, k ≠ h → s.files k = files k
  same : SameHandle (files h) (s.files h)
  started : first o ≠ 0 → (s.files h).firstCluster = first o
  volume : Volume g kept d₀ (Function.update first o (s.files h).firstCluster) s.disk

section

variable [DecidableEq ι]

theorem Writing.setDisk (hs : Writing g kept d₀ first o files h s) (hfiles : s'.files = s.files)
    (hvolume : Volume g kept d₀ (update first o (s.files h).firstCluster) s'.disk) :
    Writing g kept d₀ first o files h s' := by
  obtain ⟨disk, files'⟩ := s'
  subst hfiles
  exact ⟨hs.others, hs.same, hs.started, hvolume⟩

variable (hg : Layout g)
include hg

theorem followChain_writing (hs : Writing g kept d₀ first o files h s)
    (hfirst : (s.files h).firstCluster ≠ 0) :
    Triple (· = s) (withDisk (followChain g true index (s.files h).firstCluster))
      (fun c s' => Writing g kept d₀ first o files h s' ∧ (s'.files h).firstCluster ≠ 0 ∧
        OnChain g s'.disk (s'.files h).firstCluster c)
      fun _ s' => Writing g kept d₀ first o files h s' := by
  have hself : update first o (s.files h).firstCluster o = (s.files h).firstCluster :=
    update_self ..
  have hne : update first o (s.files h).firstCluster o ≠ 0 := by rwa [hself]
  obtain ⟨l, hl, -⟩ := hs.volume.held.chain o hne
  have hfollow := @followChain_volume g d₀ ι (update first o (s.files h).firstCluster) o
    kept _ true index (s.files h).firstCluster hg hne
  rw [hself] at hl hfollow
  refine (withDisk_triple (hfollow.pre ?_)).post ?_ ?_
  · intro d hd
    subst hd
    exact ⟨hs.volume, l, hl, hl.head_mem⟩
  · rintro c s' ⟨⟨hvolume, hc⟩, hfiles⟩
    refine ⟨hs.setDisk hfiles hvolume, by rwa [hfiles], ?_⟩
    rw [hfiles]
    rcases hc with hc | ⟨-, hc⟩
    · exact hc
    · cases hc
  · rintro e s' ⟨hvolume, hfiles⟩
    exact hs.setDisk hfiles hvolume

theorem clusterAt_writing :
    Triple (Writing g kept d₀ first o files h) (clusterAt g h index true)
      (fun c s => Writing g kept d₀ first o files h s ∧ (s.files h).firstCluster ≠ 0 ∧
        OnChain g s.disk (s.files h).firstCluster c)
      fun _ s => Writing g kept d₀ first o files h s := by
  refine Triple.bind_read fun s hs => ?_
  refine Triple.ite (fun hnone => ?_) fun hfirst => followChain_writing hg hs hfirst
  -- the first cluster of the file
  refine Triple.ite (fun _ => ?_) fun hno => absurd rfl hno
  refine Triple.bind (withDisk_triple (allocateCluster_triple hg) |>.post (fun _ _ hx => hx) ?_)
    fun x => ?_
  · rintro e s' ⟨hdisk, hfiles⟩
    refine hs.setDisk hfiles ?_
    rw [hdisk]
    exact hs.volume
  have hempty : first o = 0 := by
    by_contra hne
    exact hne ((hs.started hne).symm.trans hnone)
  have hvolume := hs.volume
  rw [hnone, ← hempty, update_eq_self] at hvolume
  refine Triple.of_forall fun s' hs' => ?_
  obtain ⟨⟨hx, hfree, hdisk⟩, hfiles⟩ := hs'
  refine setFile_bind ?_
  -- the handle now holds what no owner had
  have hself : (update s'.files h { s.files h with firstCluster := x } h).firstCluster = x := by
    rw [update_self]
  have hstart : Writing g kept d₀ first o files h
      { s' with files := update s'.files h { s.files h with firstCluster := x } } := by
    refine ⟨fun k hk => ?_, ?_, fun hne => absurd hempty hne, ?_⟩
    · dsimp only
      rw [update_of_ne hk, hfiles]
      exact hs.others k hk
    · dsimp only
      rw [update_self]
      exact hs.same.trans ⟨rfl, rfl, rfl, rfl⟩
    · dsimp only
      rw [hself, hdisk]
      exact hvolume.start hg hempty hx hfree
  have hfollow := @followChain_writing g d₀ ι first o index kept h _ files _ hg hstart
    (by
      rw [hself]
      have := hx.1
      omega)
  rwa [hself] at hfollow

/-- A sector of the chain of a handle that is written through. -/
theorem writeSector_writing {sector : Nat} {buffer : Bytes}
    (hs : Writing g kept d₀ first o files h s) (hfirst : (s.files h).firstCluster ≠ 0)
    (hc : OnChain g s.disk (s.files h).firstCluster c) (hsector : InCluster g c sector) :
    Writing g kept d₀ first o files h { s with disk := update s.disk sector buffer } := by
  have hself : update first o (s.files h).firstCluster o = (s.files h).firstCluster :=
    update_self ..
  obtain ⟨hrange, hkept, -⟩ := hs.volume.onChain_inRange (by rwa [hself]) (by rwa [hself])
  exact hs.setDisk rfl (hs.volume.writeData hg hsector hrange hkept)

variable {bytes : List UInt8}

theorem writeRounds_writing {position rounds done : Nat} :
    Triple (Writing g kept d₀ first o files h) (writeRounds g h position bytes rounds done)
      (fun _ => Writing g kept d₀ first o files h) fun _ => Writing g kept d₀ first o files h := by
  induction rounds generalizing done with
  | zero => exact Triple.pure fun _ hs => hs
  | succ rounds ih =>
    refine Triple.ite (fun _ => ?_) fun _ => Triple.pure fun _ hs => hs
    refine Triple.bind (clusterAt_writing hg) fun cluster => ?_
    rintro s ⟨hs, hfirst, hcluster⟩ r s' hrun
    have hself : update first o (s.files h).firstCluster o = (s.files h).firstCluster :=
      update_self ..
    obtain ⟨hrange, -⟩ := hs.volume.onChain_inRange (by rwa [hself]) (by rwa [hself])
    have hin := inCluster_offset hg hrange (u32 (position + done))
    exact ih _ (writeSector_writing hg hs hfirst hcluster hin) r s' hrun

/-- `fat_write` writes into the chain of its handle. -/
theorem fatWrite_writing :
    Triple (Writing g kept d₀ first o files h) (fatWrite g h bytes)
      (fun _ => Writing g kept d₀ first o files h) fun _ => Writing g kept d₀ first o files h := by
  refine Triple.bind_read fun s hs => ?_
  refine Triple.ite (fun _ => Triple.fail fun _ ht => ht ▸ hs) fun _ => ?_
  refine Triple.bind ((writeRounds_writing hg).pre fun _ ht => ht ▸ hs) fun done => ?_
  refine Triple.bind_read fun t ht => ?_
  refine setFile_bind (Triple.pure fun u hu => ?_)
  subst hu
  refine ⟨fun k hk => ?_, ?_, fun hne => ?_, ?_⟩
  · dsimp only
    rw [update_of_ne hk]
    exact ht.others k hk
  · dsimp only
    rw [update_self]
    exact ht.same.trans ⟨rfl, rfl, rfl, rfl⟩
  · dsimp only
    rw [update_self]
    exact ht.started hne
  · dsimp only
    rw [update_self]
    exact ht.volume

end

/-! ## The loops return -/

theorem fatEntry_ne_none : fatEntry g c d ≠ none := by
  unfold fatEntry
  split <;> exact nofun

theorem readSector_returns (sector : Nat) : Returns (Prog.query (readSector sector)) :=
  Returns.query fun _ => by simp [readSector]

theorem readDirEntry_returns (offset : Nat) : Returns (Prog.query (readDirEntry g c offset)) :=
  Returns.query fun _ => by simp [readDirEntry, Query.bind_apply, readSector]

theorem setFatCopies_returns (offset v : Nat) (fats : List Nat) :
    Returns (setFatCopies g offset v fats) := by
  induction fats with
  | nil => exact Returns.pure _
  | cons fat fats ih =>
    exact (readSector_returns _).bind fun _ => (Returns.modify _).bind fun _ => ih

theorem setFatEntry_returns (v : Nat) : Returns (setFatEntry g c v) :=
  Returns.ite (Returns.fail _) (setFatCopies_returns _ _ _)

theorem zeroSectors_returns (first n : Nat) : Returns (zeroSectors first n) := by
  induction n generalizing first with
  | zero => exact Returns.pure _
  | succ n ih => exact (Returns.modify _).bind fun _ => ih _

theorem allocateFrom_returns (n : Nat) : Returns (allocateFrom g c n) := by
  induction n generalizing c with
  | zero => exact Returns.fail _
  | succ n ih =>
    refine (Returns.query fun _ => fatEntry_ne_none).bind fun value => Returns.ite ?_ ih
    exact (setFatEntry_returns _).bind fun _ => (zeroSectors_returns _ _).bind fun _ =>
      Returns.pure _

theorem followChain_returns : Returns (followChain g allocate index c) := by
  induction index generalizing c with
  | zero => exact Returns.pure _
  | succ index ih =>
    refine (Returns.query fun _ => fatEntry_ne_none).bind fun next => Returns.ite ?_ ih
    refine Returns.ite ?_ (Returns.pure _)
    exact (allocateFrom_returns _).bind fun _ => (setFatEntry_returns _).bind fun _ => ih

theorem clusterAt_returns : Returns (clusterAt g h index allocate) := by
  refine read.bind fun s => Returns.ite (Returns.ite ?_ (Returns.pure _)) followChain_returns.focus
  exact (allocateFrom_returns _).focus.bind fun _ => (Returns.modify _).bind fun _ =>
    followChain_returns.focus

theorem fatRead_returns (size : Nat) : Returns (fatRead g h size) := by
  have hrounds : ∀ position remaining rounds out,
      Returns (readRounds g h position remaining rounds out) := by
    intro position remaining rounds
    induction rounds with
    | zero => exact fun out => Returns.pure _
    | succ rounds ih =>
      refine fun out => Returns.ite (clusterAt_returns.bind fun cluster => ?_) (Returns.pure _)
      exact Returns.ite (Returns.pure _) ((readSector_returns _).focus.bind fun buffer => ih _)
  refine read.bind fun s => Returns.ite (Returns.fail _) ?_
  exact (hrounds _ _ _ _).bind fun out => read.bind fun s =>
    (Returns.modify _).bind fun _ => Returns.pure _

theorem fatWrite_returns (bytes : List UInt8) : Returns (fatWrite g h bytes) := by
  have hrounds : ∀ position rounds done, Returns (writeRounds g h position bytes rounds done) := by
    intro position rounds
    induction rounds with
    | zero => exact fun done => Returns.pure _
    | succ rounds ih =>
      refine fun done => Returns.ite (clusterAt_returns.bind fun cluster => ?_) (Returns.pure _)
      exact (readSector_returns _).focus.bind fun buffer =>
        (Returns.modify _).focus.bind fun _ => ih _
  refine read.bind fun s => Returns.ite (Returns.fail _) ?_
  exact (hrounds _ _ _).bind fun done => read.bind fun s =>
    (Returns.modify _).bind fun _ => Returns.pure _

theorem fatSeek_returns (offset : Int) (origin : SeekOrigin) : Returns (fatSeek h offset origin) :=
  read.bind fun _ => Returns.ite (Returns.fail _) (Returns.ite (Returns.fail _) (Returns.modify _))

theorem fatClose_returns : Returns (fatClose g h) := by
  refine read.bind fun s => Returns.ite (Returns.pure _) ?_
  refine (readDirEntry_returns _).focus.bind fun entry => ?_
  refine Returns.bind (Returns.focus ?_) fun _ => Returns.modify _
  exact (readSector_returns _).bind fun _ => Returns.modify _

end RadKernel.Fat
