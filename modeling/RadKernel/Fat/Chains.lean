import RadKernel.Fat.Opening
import RadKernel.Lib.Run

/-!
# The chains of a volume in use

Runs of `fat_open`, `fat_read`, `fat_write`, `fat_seek` and `fat_close` on a mounted volume whose
root directory has one cluster, with at most one handle open on each file.

`fat_open` truncates before it looks for a handle. When there is none it fails, and if the file is
open its handle is left with a chain that was freed.
-/

namespace RadKernel.Fat

open Kernel Prog Buffer

variable {g : FatContext} {s t : FatState} {h : Fin maxOpenFiles}

/-! ## Calls -/

inductive Call where
  | openPath (path : List UInt8) (flags : Nat)
  | read (h : Fin maxOpenFiles) (size : Nat)
  | write (h : Fin maxOpenFiles) (bytes : List UInt8)
  | seek (h : Fin maxOpenFiles) (offset : Int) (origin : SeekOrigin)
  | close (h : Fin maxOpenFiles)
  deriving DecidableEq, Repr

def perform (g : FatContext) (s : FatState) : Call → Option FatState
  | .openPath path flags => (fatOpen g path flags s).map Prod.snd
  | .read h size => (fatRead g h size s).map Prod.snd
  | .write h bytes => (fatWrite g h bytes s).map Prod.snd
  | .seek h offset origin => (fatSeek h offset origin s).map Prod.snd
  | .close h => (fatClose g h s).map Prod.snd

/-- A call is made, with at most one handle open on each file after it. -/
def CallStep (g : FatContext) (s : FatState) (call : Call) (t : FatState) : Prop :=
  perform g s call = some t ∧ AtMostOne t

/-- The call truncates a file on which a handle is open. -/
def TruncatesOpen (g : FatContext) (s : FatState) : Call → Prop
  | .openPath path flags => TruncatesOpened g s path flags
  | _ => False

/-- The chain of the root directory and those of the files. -/
def chainStart (g : FatContext) (s : FatState) : Option Holder → Nat
  | none => g.rootCluster
  | some o => holds g s o

/-- The copies of the table agree, and the chains of the root directory, of closed files and of
open handles end, have no zero link and no cluster in common. -/
structure ChainsApart (g : FatContext) (s : FatState) : Prop where
  copies : CopiesEqual g s.disk
  chain : ∀ o, chainStart g s o ≠ 0 → ∃ l, ChainOf g s.disk (chainStart g s o) l ∧ l.Nodup ∧
    ∀ c ∈ l, InRange g c ∧ nextOf g s.disk c ≠ 0
  apart : ∀ o o', o ≠ o' → chainStart g s o ≠ 0 → chainStart g s o' ≠ 0 → ∀ l l',
    ChainOf g s.disk (chainStart g s o) l → ChainOf g s.disk (chainStart g s o') l' → l.Disjoint l'

/-- A well-formed volume whose root directory has one cluster, just mounted. -/
structure Mounted (g : FatContext) (s : FatState) : Prop where
  layout : Layout g
  files : s.files = fun _ => {}
  chains : ChainsApart g s
  rootEnd : isEoc (links g s.disk g.rootCluster) = true
  dirEnd : ∀ i j, i < j → j < slots g → rootSlot g s.disk i 0 = 0 → rootSlot g s.disk j 0 = 0

/-! ## Good volumes -/

theorem rootChain (hend : isEoc (links g s.disk g.rootCluster) = true) {l : List Nat}
    (hl : ChainOf g s.disk g.rootCluster l) : l = [g.rootCluster] := hl.unique (.last hend)

theorem Good.chainsApart (hgood : Good g s) : ChainsApart g s := by
  have hroot := hgood.root_inRange
  have hrootLink : links g s.disk g.rootCluster ≠ 0 := hgood.volume.held.used _ rfl
  have hnot : ∀ o l, holds g s o ≠ 0 → ChainOf g s.disk (holds g s o) l → g.rootCluster ∉ l :=
    fun o l ho hl hmem => (hgood.volume.held.mem ho hl hmem).2.1 rfl
  refine ⟨hgood.volume.copies, fun o ho => ?_, fun o o' hne ho ho' l l' hl hl' => ?_⟩
  · cases o with
    | none =>
      refine ⟨[g.rootCluster], .last hgood.rootEnd, List.nodup_singleton _, ?_⟩
      simp only [List.mem_singleton, forall_eq]
      exact ⟨hroot, by rwa [← links_of_inRange hroot]⟩
    | some o =>
      obtain ⟨l, hl, hall⟩ := hgood.volume.held.chain o ho
      refine ⟨l, hl, hl.nodup, fun c hc => ⟨(hall c hc).1, ?_⟩⟩
      rw [← links_of_inRange (hall c hc).1]
      exact (hall c hc).2.2
  · cases o with
    | none =>
      cases o' with
      | none => exact absurd rfl hne
      | some o' =>
        rw [rootChain hgood.rootEnd hl, List.singleton_disjoint]
        exact hnot o' l' ho' hl'
    | some o =>
      cases o' with
      | none =>
        rw [rootChain hgood.rootEnd hl', List.disjoint_singleton]
        exact hnot o l ho hl
      | some o' => exact hgood.volume.held.apart o o' (by grind) ho ho' l l' hl hl'

theorem Mounted.good (h : Mounted g s) : Good g s := by
  have hunused : ∀ k, (s.files k).used = false := by
    intro k
    rw [h.files]
  have hroot : chainStart g s none ≠ 0 := by
    have := g.rootCluster_ge
    show g.rootCluster ≠ 0
    omega
  obtain ⟨l, hl, -, hall⟩ := h.chains.chain none hroot
  obtain ⟨hrange, hlink⟩ := hall g.rootCluster hl.head_mem
  refine ⟨⟨h.chains.copies, ⟨fun o ho => ?_, fun o o' hne ho ho' l l' hl hl' => ?_, ?_⟩,
    fun _ _ => rfl, fun _ _ _ _ => rfl⟩, h.rootEnd, h.dirEnd, ?_, ?_⟩
  · obtain ⟨l', hl', -, hall'⟩ := h.chains.chain (some o) ho
    refine ⟨l', hl', fun c hc => ⟨(hall' c hc).1, ?_, ?_⟩⟩
    · rintro rfl
      exact h.chains.apart none (some o) (by simp) hroot ho l l' hl hl' hl.head_mem hc
    · rw [links_of_inRange (hall' c hc).1]
      exact (hall' c hc).2
  · exact h.chains.apart (some o) (some o') (by simpa using hne) ho ho' l l' hl hl'
  · rintro c rfl
    rwa [links_of_inRange hrange]
  · intro k hk
    rw [hunused k] at hk
    cases hk
  · intro k k' hk
    rw [hunused k] at hk
    cases hk

/-! ## Runs -/

variable {call : Call}

theorem Good.step (hg : Layout g) (hgood : Good g s) (hstep : CallStep g s call t)
    (hopen : ¬TruncatesOpen g s call) : Good g t := by
  obtain ⟨hperform, honce⟩ := hstep
  cases call with
  | openPath path flags =>
    obtain ⟨r, t', hrun, hgood'⟩ := hgood.open hg hopen
    simp only [perform, hrun, Option.map_some, Option.some.injEq] at hperform
    subst hperform
    exact hgood' honce
  | read h size =>
    obtain ⟨⟨r, t'⟩, hrun, rfl⟩ := Option.map_eq_some_iff.1 hperform
    cases r with
    | error e => exact fatRead_triple.error rfl hrun ▸ hgood
    | ok out =>
      obtain ⟨position, -, rfl⟩ := fatRead_triple.ok rfl hrun
      exact hgood.moved position
  | write h bytes =>
    obtain ⟨⟨r, t'⟩, hrun, rfl⟩ := Option.map_eq_some_iff.1 hperform
    exact hgood.write hg hrun
  | seek h offset origin =>
    obtain ⟨⟨r, t'⟩, hrun, rfl⟩ := Option.map_eq_some_iff.1 hperform
    cases r with
    | error e => exact fatSeek_triple.error rfl hrun ▸ hgood
    | ok u =>
      obtain ⟨position, rfl⟩ := fatSeek_triple.ok rfl hrun
      exact hgood.moved position
  | close h =>
    obtain ⟨⟨r, t'⟩, hrun, rfl⟩ := Option.map_eq_some_iff.1 hperform
    exact hgood.close hg hrun

theorem Good.returns (hg : Layout g) (hgood : Good g s)
    (hopen : ¬TruncatesOpen g s call) : ∃ t, perform g s call = some t := by
  have hmap : ∀ {α : Type} {x : FatM α}, Returns x → ∃ t, (x s).map Prod.snd = some t := by
    intro α x hx
    obtain ⟨r, t, hrun⟩ := hx s
    exact ⟨t, by rw [hrun]; rfl⟩
  cases call with
  | openPath path flags =>
    obtain ⟨r, t, hrun, -⟩ := hgood.open hg hopen
    exact ⟨t, by rw [perform, hrun]; rfl⟩
  | read h size => exact hmap (fatRead_returns size)
  | write h bytes => exact hmap (fatWrite_returns bytes)
  | seek h offset origin => exact hmap (fatSeek_returns offset origin)
  | close h => exact hmap fatClose_returns

/-- A call that truncates no open file. -/
def SafeStep (g : FatContext) (s : FatState) (call : Call) (t : FatState) : Prop :=
  CallStep g s call t ∧ ¬TruncatesOpen g s call

theorem good_of_run (hrun : Run (SafeStep g) (Mounted g) t) : Layout g ∧ Good g t :=
  hrun.invariant (J := fun s => Layout g ∧ Good g s) (fun _ hs => ⟨hs.layout, hs.good⟩)
    fun _ _ _ hgood hstep => ⟨hgood.1, hgood.2.step hgood.1 hstep.1 hstep.2⟩

/-- In a run with at most one handle open on each file that truncates no open file, every call
returns and the chains stay apart. -/
theorem chainsApart_of_run (hrun : Run (SafeStep g) (Mounted g) t) :
    ChainsApart g t ∧ ∀ call, ¬TruncatesOpen g t call → ∃ u, perform g t call = some u := by
  obtain ⟨hg, hgood⟩ := good_of_run hrun
  exact ⟨hgood.chainsApart, fun call hopen => hgood.returns hg hopen⟩

/-! ## A small volume -/

instance (g : FatContext) (d : Disk) : Decidable (CopiesEqual g d) :=
  inferInstanceAs (Decidable (∀ _ < _, ∀ _ < _, ∀ _ < _, _))

instance (s : FatState) : Decidable (AtMostOne s) := inferInstanceAs (Decidable (∀ _, _))

/-- The state after a call that leaves at most one handle on each file. -/
def checked (g : FatContext) (s : FatState) (call : Call) : Option FatState :=
  (perform g s call).filter fun t => AtMostOne t

theorem callStep_of_checked (h : checked g s call = some t) : CallStep g s call t := by
  obtain ⟨hperform, honce⟩ := Option.filter_eq_some_iff.1 h
  exact ⟨hperform, by simpa using honce⟩

theorem run_of_checked {start : FatState → Prop} {ok : FatState → Call → Prop} (calls : List Call)
    (hrun : Run (fun s call t => CallStep g s call t ∧ ok s call) start s)
    (hok : ∀ call ∈ calls, ∀ s, ok s call) (h : calls.foldlM (checked g) s = some t) :
    Run (fun s call t => CallStep g s call t ∧ ok s call) start t := by
  induction calls generalizing s with
  | nil =>
    cases h
    exact hrun
  | cons call calls ih =>
    obtain ⟨u, hu, hrest⟩ := Option.bind_eq_some_iff.1 h
    refine ih (hrun.step ⟨callStep_of_checked hu, hok call (by simp) s⟩) (fun c hc => ?_) hrest
    exact hok c (by simp [hc])

/-- Four clusters, two copies of a table of one sector. -/
def demoContext : FatContext where
  sectorsPerCluster := 1
  reservedSectors := 1
  fatCount := 2
  fatSize := 1
  totalSectors := 7
  rootCluster := 2
  sectorsPerCluster_pos := by decide
  sectorsPerCluster_lt := by decide
  fatCount_pos := by decide
  fatSize_pos := by decide
  totalSectors_lt := by decide
  rootCluster_ge := by decide
  data_lt := by decide

/-- The name that is the letter of a number. -/
def letterName (j : Nat) : List UInt8 := (65 + j).toUInt8 :: List.replicate 10 32

def demoEntry (j : Nat) : FatDirEntry :=
  if j = 0 then (newEntry (letterName j)).setFirstCluster 3 else newEntry (letterName j)

/-- The root directory is cluster 2, file `A` has cluster 3, and `B` to `H` are empty. -/
def demoDisk : Disk := fun s =>
  if s = 1 ∨ s = 2 then store (fun _ => 0) 8 (le32Bytes fatEoc ++ le32Bytes fatEoc)
  else if s = 3 then fun i => if i / 32 < 8 then demoEntry (i / 32) (i % 32) else 0
  else fun _ => 0

def demoStart : FatState := { disk := demoDisk }

theorem holds_demoStart (o : Holder) :
    holds demoContext demoStart o = if o = .entry 0 then 3 else 0 := by
  cases o with
  | handle h => rfl
  | entry j =>
    have hslots : ∀ j < 16, holds demoContext demoStart (.entry j) =
        if Holder.entry j = .entry 0 then 3 else 0 := by decide +kernel
    by_cases hj : j < 16
    · exact hslots j hj
    · have hclosed : ¬Closed demoContext demoStart j := fun hc => hj hc.1
      have hne : Holder.entry j ≠ .entry 0 := by
        simp only [ne_eq, Holder.entry.injEq]
        omega
      rw [if_neg hne, holds, if_neg hclosed]

theorem mounted_demoStart : Mounted demoContext demoStart := by
  have hroot : ChainOf demoContext demoDisk 2 [2] := .last (by decide +kernel)
  have hfile : ChainOf demoContext demoDisk 3 [3] := .last (by decide +kernel)
  -- what any owner has is one of the two chains
  have hstart : ∀ o, chainStart demoContext demoStart o ≠ 0 →
      o = none ∧ chainStart demoContext demoStart o = 2 ∨
        o = some (.entry 0) ∧ chainStart demoContext demoStart o = 3 := by
    intro o ho
    cases o with
    | none => exact .inl ⟨rfl, rfl⟩
    | some o =>
      simp only [chainStart, holds_demoStart] at ho ⊢
      grind
  refine ⟨⟨by decide, by decide, by decide⟩, rfl, ⟨?_, fun o ho => ?_, ?_⟩, by decide +kernel, ?_⟩
  · decide +kernel
  · rcases hstart o ho with ⟨-, heq⟩ | ⟨-, heq⟩
    · rw [heq]
      exact ⟨[2], hroot, by decide, by decide +kernel⟩
    · rw [heq]
      exact ⟨[3], hfile, by decide, by decide +kernel⟩
  · intro o o' hne ho ho' l l' hl hl'
    rcases hstart o ho with ⟨rfl, heq⟩ | ⟨rfl, heq⟩ <;>
      rcases hstart o' ho' with ⟨rfl, heq'⟩ | ⟨rfl, heq'⟩
    · exact absurd rfl hne
    · rw [heq] at hl
      rw [heq'] at hl'
      rw [hl.unique hroot, hl'.unique hfile]
      simp
    · rw [heq] at hl
      rw [hl.unique hfile, hl'.unique hroot]
      simp
    · exact absurd rfl hne
  · have hall : ∀ j < 16, ∀ i < j, rootSlot demoContext demoDisk i 0 = 0 →
        rootSlot demoContext demoDisk j 0 = 0 := by decide +kernel
    exact fun i j hij hj => hall j hj i hij

def firstFile : Fin maxOpenFiles := ⟨0, by decide⟩

/-- Three bytes are written to `B`, which had no chain. -/
def writeCalls : List Call :=
  [.openPath [66] vfsWrite, .write firstFile [1, 2, 3], .close firstFile]

theorem chainsApart_writeCalls :
    ∃ t, writeCalls.foldlM (checked demoContext) demoStart = some t ∧
      ChainsApart demoContext t ∧ ∀ call, ¬TruncatesOpen demoContext t call →
        ∃ u, perform demoContext t call = some u := by
  have hsome : (writeCalls.foldlM (checked demoContext) demoStart).isSome = true := by
    decide +kernel
  obtain ⟨t, ht⟩ := Option.isSome_iff_exists.1 hsome
  refine ⟨t, ht, chainsApart_of_run (run_of_checked writeCalls (.start mounted_demoStart) ?_ ht)⟩
  intro call hcall s
  simp only [writeCalls, List.mem_cons, List.not_mem_nil, or_false] at hcall
  rcases hcall with rfl | rfl | rfl
  · exact fun htruncates => htruncates.1 rfl
  · exact id
  · exact id

/-- All eight files are opened, and `A` once more to be truncated. -/
def truncateCalls : List Call :=
  (List.range 8).map (fun j => .openPath [(65 + j).toUInt8] vfsRead) ++
    [.openPath [65] (vfsWrite + vfsTruncate)]

/-- The call that truncates `A` fails, and the handle of `A` has a chain that was freed. -/
theorem not_chainsApart_truncateCalls :
    ¬ ∀ g t, Run (CallStep g) (Mounted g) t → ChainsApart g t := by
  intro hall
  have hfields : (truncateCalls.foldlM (checked demoContext) demoStart).map
      (fun t => (holds demoContext t (.handle firstFile), nextOf demoContext t.disk 3)) =
      some (3, 0) := by decide +kernel
  obtain ⟨t, ht, hvalues⟩ := Option.map_eq_some_iff.1 hfields
  obtain ⟨hholds, hfreed⟩ := Prod.mk.inj hvalues
  have hrun : Run (fun s call t => CallStep demoContext s call t ∧ True) (Mounted demoContext) t :=
    run_of_checked truncateCalls (.start mounted_demoStart) (fun _ _ _ => trivial) ht
  have hstart : chainStart demoContext t (some (.handle firstFile)) = 3 := hholds
  obtain ⟨l, hl, -, hlinks⟩ := (hall _ _ (hrun.mono fun _ _ _ h => h.1)).chain
    (some (.handle firstFile)) (by rw [hstart]; decide)
  rw [hstart] at hl
  exact (hlinks 3 hl.head_mem).2 hfreed

end RadKernel.Fat
