import RadKernel.Fat.ByteFile

/-!
# Closing and opening files

The close writes size and first cluster into the entry of the file, and the next open finds them
there. So the file behaves as a byte array in every run of calls on it.
-/

namespace RadKernel.Fat

open Kernel Prog Buffer

variable {g : FatContext} {d d' : Disk} {name path : List UInt8} {s t : FatState}
  {j first flags off : Nat} {e : FatDirEntry} {h : Fin maxOpenFiles} {l : List Nat}
  {bytes : List UInt8} {f : ByteFile}

/-! ## Closing -/

/-- The entry has the file. -/
structure Shut (g : FatContext) (name : List UInt8) (d : Disk) (bytes : List UInt8) : Prop where
  root : OneCluster g d
  sizeLt : bytes.length < 2 ^ 32
  entry : ∃ j l, HasEntry g d name j ∧ (rootSlot g d j).size = bytes.length ∧
    Stored g d (rootSlot g d j).firstCluster l bytes

theorem sameRoot_links (hg : Layout g) (hroot : OneCluster g d) (htable : SameTable g d d') :
    OneCluster g d' :=
  ⟨hroot.root, by rw [htable.links hg]; exact hroot.last⟩

/-- An entry is written for the file. -/
theorem hasEntry_put (hroot : InRange g g.rootCluster) (hj : j < slots g)
    (hbefore : ∀ i < j, rootSlot g d i 0 ≠ 0 ∧ ¬Names (rootSlot g d i) name)
    (hfits : Fits e name) (hattr : e.attr &&& attrDirectory = 0) :
    HasEntry g (putEntry g d g.rootCluster (entrySize * j) e) name j := by
  have hself : SameEntry e (rootSlot g (putEntry g d g.rootCluster (entrySize * j) e) j) :=
    entryAt_putEntry_self
  refine ⟨hj, fun i hi => ?_, hself.fits hfits, by rwa [hself.attr]⟩
  have hother : SameEntry (rootSlot g d i)
      (rootSlot g (putEntry g d g.rootCluster (entrySize * j) e) i) :=
    entryAt_putEntry_other hroot hroot hj (by omega) (.inr (by omega))
  rw [hother 0 (by decide), hother.names]
  exact hbefore i hi

theorem Stored.put (hg : Layout g) (h : Stored g d first l bytes) (hroot : InRange g g.rootCluster)
    (hj : j < slots g) : Stored g (putEntry g d g.rootCluster (entrySize * j) e) first l bytes := by
  have htable := sameTable_putEntry (g := g) (d := d) (c := g.rootCluster) (k := entrySize * j)
    (e := e)
  refine ⟨h.clusters.congr fun x _ => by rw [htable.links hg], ?_, h.covers⟩
  rw [fileByte_congr fun c hc s hs => putEntry_data hroot (h.clusters.range c hc)
    (fun heq => h.clusters.apart (heq ▸ hc)) hj hs]
  exact h.byte

theorem Clusters.first_lt (hg : Layout g) (hl : Clusters g d first l) : first < 2 ^ 32 := by
  by_cases hzero : first = 0
  · omega
  have hlt := (hl.range _ (hl.chainOf hzero).head_mem).2
  have := hg.marks
  omega

theorem Open.close (hg : Layout g) (hs : Open g name s h f) {r : Except Status Unit}
    (hrun : fatClose g h s = some (r, t)) : Shut g name t.disk f.bytes := by
  obtain ⟨j, hoffset, hentry⟩ := hs.entry
  obtain ⟨l, hl⟩ := hs.stored
  cases hrun.symm.trans (fatClose_eq hg hs.root.root hs.used hs.dirCluster hentry.lt hoffset)
  have hself : SameEntry (writtenBack (s.files h) (rootSlot g s.disk j))
      (rootSlot g (putEntry g s.disk g.rootCluster (entrySize * j)
        (writtenBack (s.files h) (rootSlot g s.disk j))) j) := entryAt_putEntry_self
  have hattr : (writtenBack (s.files h) (rootSlot g s.disk j)).attr =
      (rootSlot g s.disk j).attr := by
    unfold writtenBack FatDirEntry.attr
    exact setFields_low (by decide)
  refine ⟨sameRoot_links hg hs.root sameTable_putEntry, hs.sizeLt, j, l,
    hasEntry_put hs.root.root hentry.lt hentry.before (hentry.fits.setFields _ _)
      (by rw [hattr]; exact hentry.attr), ?_, ?_⟩
  · rw [hself.size, writtenBack, size_setFirstCluster, hs.size, size_setSize hs.sizeLt]
  · rw [hself.firstCluster, writtenBack, firstCluster_setFirstCluster (hl.clusters.first_lt hg)]
    exact hl.put hg hs.root.root hentry.lt

/-! ## Opening -/

/-- An entry that `fat_open` took, with the file it is of. -/
structure Loaded (g : FatContext) (name : List UInt8) (d : Disk) (e : FatDirEntry) (off : Nat)
    (bytes : List UInt8) : Prop where
  root : OneCluster g d
  sizeLt : bytes.length < 2 ^ 32
  entry : ∃ j, off = entrySize * j ∧ HasEntry g d name j
  fits : Fits e name
  attr : e.attr &&& attrDirectory = 0
  stored : ∃ l, Stored g d e.firstCluster l bytes
  size : e.size = bytes.length

def cleared (flags : Nat) (bytes : List UInt8) : List UInt8 :=
  if Truncates flags then [] else bytes

theorem Loaded.truncate (hg : Layout g) (hd : Loaded g name d e off bytes) {e' : FatDirEntry}
    (hrun : truncateEntry g e off flags d = some (.ok e', d')) :
    Loaded g name d' e' off (cleared flags bytes) := by
  obtain ⟨j, rfl, hentry⟩ := hd.entry
  obtain ⟨l, hl⟩ := hd.stored
  by_cases htruncates : Truncates flags
  case neg =>
    cases hrun.symm.trans (truncateEntry_keep htruncates)
    rwa [cleared, if_neg htruncates]
  rw [cleared, if_pos htruncates]
  have hcluster : ((e.setSize 0).setFirstCluster 0).firstCluster = 0 :=
    firstCluster_setFirstCluster (by decide)
  have hattr : ((e.setSize 0).setFirstCluster 0).attr &&& attrDirectory = 0 := by
    exact hd.attr
  -- whatever was freed, the root directory is as it was
  have hcleared : ∀ d₁, SameRoot g d d₁ → Loaded g name (putEntry g d₁ g.rootCluster
      (entrySize * j) ((e.setSize 0).setFirstCluster 0)) ((e.setSize 0).setFirstCluster 0)
      (entrySize * j) [] := by
    intro d₁ hsame
    refine ⟨sameRoot_links hg (hd.root.congr hsame) sameTable_putEntry, by decide, ⟨j, rfl,
      hasEntry_put hd.root.root hentry.lt (hentry.congr hsame).before (hd.fits.setFields 0 0)
        hattr⟩, hd.fits.setFields 0 0, hattr, ⟨[], ?_⟩, ?_⟩
    · rw [hcluster]
      exact stored_nil g _
    · rw [size_setFirstCluster, size_setSize (by decide)]
      rfl
  by_cases hnone : e.firstCluster ≠ 0
  · obtain ⟨d₁, hfree, hsame⟩ := hl.clusters.free hg hnone
    cases hrun.symm.trans (truncateEntry_freed hg hd.root.root hentry.lt htruncates hnone hfree)
    exact hcleared d₁ hsame
  · cases hrun.symm.trans
      (truncateEntry_empty hg hd.root.root hentry.lt htruncates (not_not.1 hnone))
    exact hcleared d (SameRoot.refl d)

theorem Loaded.open (hd : Loaded g name t.disk e off bytes)
    (hfiles : t.files = Function.update s.files h (openedFile g e off flags)) :
    Open g name t h { bytes, position := if flags &&& vfsAppend ≠ 0 then bytes.length else 0 } := by
  have hself : t.files h = openedFile g e off flags := by rw [hfiles, Function.update_self]
  have hsize := hd.size
  have hlt := hd.sizeLt
  constructor
  case root => exact hd.root
  case entry => simpa [hself, openedFile] using hd.entry
  case stored => simpa [hself, openedFile] using hd.stored
  case sizeLt => exact hlt
  case positionLt =>
    dsimp only
    split_ifs <;> omega
  all_goals simp [hself, openedFile, hsize]

theorem openEntry_ok (hopen : openEntry g name flags d = some (.ok (e, off), d')) :
    ∃ e₁ d₁, findOrCreate g name flags d = some (.ok (e₁, off), d₁) ∧
      e₁.attr &&& attrDirectory = 0 ∧
      truncateEntry g e₁ off flags d₁ = some (.ok e, d') := by
  rw [openEntry, bind_apply] at hopen
  cases hfind : findOrCreate g name flags d with
  | none =>
    rw [hfind] at hopen
    cases hopen
  | some out =>
  obtain ⟨r, d₁⟩ := out
  rw [hfind] at hopen
  cases r with
  | error e => cases hopen
  | ok found =>
  obtain ⟨e₁, off₁⟩ := found
  dsimp only at hopen
  split_ifs at hopen with hdirectory
  · cases hopen
  rw [bind_apply] at hopen
  cases htruncate : truncateEntry g e₁ off₁ flags d₁ with
  | none =>
    rw [htruncate] at hopen
    cases hopen
  | some out =>
  obtain ⟨r, d₂⟩ := out
  rw [htruncate] at hopen
  cases r with
  | error e => cases hopen
  | ok e₂ =>
    cases hopen
    exact ⟨e₁, d₁, rfl, by simpa using hdirectory, htruncate⟩

theorem loaded_of_missing (hg : Layout g) (hroot : OneCluster g d)
    (hname : makeShortName path = some name) (hnone : ∀ j, ¬FirstNamed g d name g.rootCluster j)
    (hopen : openEntry g name flags d = some (.ok (e, off), d')) : Loaded g name d' e off [] := by
  obtain ⟨e₁, d₁, hfind, hattr, htruncate⟩ := openEntry_ok hopen
  have hloaded : Loaded g name d₁ e₁ off [] := by
    obtain ⟨found, hsearch, hsearched⟩ := findEntry_cases hg (.last hroot.last)
      (by simpa using hroot.root) name
    rw [findOrCreate, bind_apply, Prog.query, hsearch] at hfind
    cases found with
    | entry e₂ off₂ =>
      obtain ⟨c, j, hmatch, -⟩ := hsearched
      have hfirst := hmatch.firstNamed
      rw [List.mem_singleton.1 hmatch.mem] at hfirst
      exact absurd hfirst (hnone j)
    | missing free =>
    obtain ⟨-, _, rfl, hspace⟩ := hsearched
    cases free with
    | none => cases hfind
    | some off₂ =>
    obtain ⟨c, j, hin, rfl⟩ := hspace off₂ rfl
    obtain rfl := List.mem_singleton.1 hin.mem
    have hfirst := hin.firstFree
    have hcluster := firstCluster_newEntry (makeShortName_some hname).1
    simp only [Option.map_some] at hfind
    split_ifs at hfind with hcreate
    · cases hfind
    simp only [bind_apply, writeDirEntry_eq hg hroot.root hfirst.lt, pure_apply] at hfind
    cases hfind
    refine ⟨sameRoot_links hg hroot sameTable_putEntry, by decide, ⟨j, rfl,
      hasEntry_put hroot.root hfirst.lt (fun i hi => ⟨fun hzero => (hfirst.before i hi).1 (.inl hzero),
        (hfirst.before i hi).2⟩) (newEntry_fits hname) hattr⟩, newEntry_fits hname, hattr,
      ⟨[], ?_⟩, ?_⟩
    · rw [hcluster]
      exact stored_nil g _
    · exact size_newEntry (makeShortName_some hname).1
  have hcleared := hloaded.truncate hg htruncate
  rwa [cleared, ite_self] at hcleared

theorem loaded_of_shut (hg : Layout g) (hshut : Shut g name d bytes)
    (hhead : name.head? ≠ some 0xe5) (hopen : openEntry g name flags d = some (.ok (e, off), d')) :
    Loaded g name d' e off (cleared flags bytes) := by
  obtain ⟨e₁, d₁, hfind, hattr, htruncate⟩ := openEntry_ok hopen
  refine Loaded.truncate hg ?_ htruncate
  obtain ⟨j, l, hentry, hsize, hl⟩ := hshut.entry
  have hroot := hshut.root
  have hnames := hentry.fits.resolve_right fun hdeleted => hhead hdeleted.1
  have hfirst : FirstNamed g d name g.rootCluster j := ⟨hentry.lt, hnames, hentry.before⟩
  obtain ⟨found, hsearch, hsearched⟩ := findEntry_cases hg (.last hroot.last)
    (by simpa using hroot.root) name
  rw [findOrCreate, bind_apply, Prog.query, hsearch] at hfind
  cases found with
  | missing free => exact absurd (.here hfirst) (hsearched.1 _ j)
  | entry e₂ off₂ =>
    obtain ⟨c, i, hmatch, rfl, rfl⟩ := hsearched
    obtain rfl := List.mem_singleton.1 hmatch.mem
    obtain rfl := hmatch.firstNamed.unique hfirst
    cases hfind
    exact ⟨hroot, hshut.sizeLt, ⟨_, rfl, hentry⟩, hentry.fits, hentry.attr, ⟨l, hl⟩, hsize⟩

/-! ## Runs -/

/-- The handle has the file, or its entry has it. -/
def Kept (g : FatContext) (name : List UInt8) (w : FileRun) : Prop :=
  (∀ h, w.handle = some h → Open g name w.fat h w.file) ∧
    (w.handle = none → Shut g name w.fat.disk w.file.bytes)

variable {w v : FileRun} {call : FileCall}

theorem Kept.of_open (hs : Open g name v.fat h v.file) (hv : v.handle = some h) :
    Kept g name v := by
  refine ⟨fun k hk => ?_, fun hnone => ?_⟩
  · obtain rfl := Option.some.inj (hv.symm.trans hk)
    exact hs
  · cases hv.symm.trans hnone

theorem JustCreated.kept (hg : Layout g) (hw : JustCreated g name w) : Kept g name w := by
  obtain ⟨hfile, s, path, flags, h, hroot, hname, hnone, -, hopen, hhandle⟩ := hw
  obtain ⟨e, off, hentry, hfiles⟩ := fatOpen_ok hname hopen
  have hopened := (loaded_of_missing hg hroot hname hnone hentry).open hfiles
  refine Kept.of_open ?_ hhandle
  rw [hfile]
  simpa using hopened

theorem Kept.step (hg : Layout g) (hw : Kept g name w) (hstep : FileRun.Step g name w call v) :
    Kept g name v := by
  obtain ⟨hallowed, hstep⟩ := hstep
  cases call with
  | seek offset origin =>
    obtain ⟨h, hhandle, hstep⟩ := Option.bind_eq_some_iff.1 hstep
    have hs := hw.1 h hhandle
    split at hstep
    case h_2 => cases hstep
    case h_1 u t hrun =>
      cases hstep
      obtain ⟨hnonneg, rfl⟩ := hs.fatSeek_ok hrun
      have hlt : (w.file.target offset origin).toNat < 2 ^ 32 := by
        have : w.file.target offset origin < 2 ^ 32 := hallowed
        omega
      have hmoved := hs.moved _ hlt
      refine Kept.of_open ?_ hhandle
      rw [u32, Nat.mod_eq_of_lt hlt]
      exact hmoved
  | read n =>
    obtain ⟨h, hhandle, hstep⟩ := Option.bind_eq_some_iff.1 hstep
    have hs := hw.1 h hhandle
    split at hstep
    case h_2 => cases hstep
    case h_1 out t hrun =>
      cases hstep
      have hflags : (w.fat.files h).flags &&& vfsRead ≠ 0 := by
        intro hzero
        rw [fatRead, bind_apply, read_apply] at hrun
        dsimp only at hrun
        rw [if_pos (.inr hzero)] at hrun
        cases hrun
      cases hrun.symm.trans (hs.fatRead_eq hg n hflags)
      have hlength := Stored.length_taken w.file n
      have hsize := hs.sizeLt
      have hposition := hs.positionLt
      exact Kept.of_open (hs.moved _ (by omega)) hhandle
  | write data =>
    obtain ⟨h, hhandle, hstep⟩ := Option.bind_eq_some_iff.1 hstep
    have hs := hw.1 h hhandle
    split at hstep
    case h_2 => cases hstep
    case h_1 n t hrun =>
      cases hstep
      exact Kept.of_open ((hs.fatWrite_ok hg hallowed.2 hrun).2 hallowed.1) hhandle
  | close =>
    obtain ⟨h, hhandle, hstep⟩ := Option.bind_eq_some_iff.1 hstep
    have hs := hw.1 h hhandle
    split at hstep
    case h_2 => cases hstep
    case h_1 u t hrun =>
      cases hstep
      exact ⟨by simp, fun _ => hs.close hg hrun⟩
  | reopen path flags =>
    rw [FileRun.step] at hstep
    split_ifs at hstep with hsome
    have hshut := hw.2 (by simpa using hsome)
    split at hstep
    case h_2 => cases hstep
    case h_1 h t hrun =>
      cases hstep
      obtain ⟨hname, hdeleted⟩ := hallowed
      obtain ⟨e, off, hentry, hfiles⟩ := fatOpen_ok hname hrun
      refine Kept.of_open ?_ rfl
      by_cases hhead : name.head? = some 0xe5
      · -- the old entry is not seen, and the file was empty
        have hloaded := loaded_of_missing hg hshut.root hname
          (fun j hj => not_names_of_head hhead hj.named) hentry
        have hopened := hloaded.open hfiles
        simpa [ByteFile.reopen, hdeleted hhead] using hopened
      · exact (loaded_of_shut hg hshut hhead hentry).open hfiles

/-- The file behaves as the byte array in every state that is reached, and `fat_tell` gives the
target of a seek just when it is below `2 ^ 32`. -/
theorem byteFile_of_run (hg : Layout g) (hrun : Run (FileRun.Step g name) (JustCreated g name) w) :
    ∀ h, w.handle = some h → Refines g w.fat h w.file := by
  have hkept : Kept g name w :=
    hrun.invariant (fun _ hw => hw.kept hg) fun _ _ _ hw hstep => hw.step hg hstep
  exact fun h hh => (hkept.1 h hh).refines hg

theorem run_of_perform (calls : List FileCall)
    (hw : Run (FileRun.Step g name) (JustCreated g name) w)
    (hrun : calls.foldlM (FileRun.perform g name) w = some v) :
    Run (FileRun.Step g name) (JustCreated g name) v := by
  induction calls generalizing w with
  | nil =>
    cases hrun
    exact hw
  | cons call calls ih =>
    obtain ⟨u, hu, hrest⟩ := Option.bind_eq_some_iff.1 hrun
    rw [FileRun.perform] at hu
    split_ifs at hu with hallowed
    exact ih (hw.step ⟨hallowed, hu⟩) hrest

/-! ## New files -/

def readWriteCreate : Nat := vfsRead ||| vfsWrite ||| vfsCreate

def createdFile (path : List UInt8) : Option FileRun :=
  match fatOpen demoContext path readWriteCreate demoStart with
  | some (.ok h, t) => some { fat := t, handle := some h, file := {} }
  | _ => none

theorem justCreated_createdFile (hw : createdFile [73] = some w) :
    JustCreated demoContext (letterName 8) w := by
  unfold createdFile at hw
  split at hw
  case h_2 => cases hw
  case h_1 h t hopen =>
    cases hw
    have hnone : ∀ j < 16, (slot demoContext demoDisk 2 j).name ≠ letterName 8 := by
      decide +kernel
    exact ⟨rfl, demoStart, [73], readWriteCreate, h, ⟨by decide, by decide +kernel⟩, by decide,
      fun j hj => hnone j hj.lt hj.named.2, by decide, hopen, rfl⟩

/-- A byte is written behind a gap of five, and the file is closed and opened again. -/
def gapCalls : List FileCall :=
  [.seek 5 .set, .write [7], .close, .reopen [73] vfsRead, .read 3]

theorem byteFile_gap :
    ∃ w v, createdFile [73] = some w ∧
      gapCalls.foldlM (FileRun.perform demoContext (letterName 8)) w = some v ∧
      v.file = ⟨[0, 0, 0, 0, 0, 7], 3⟩ ∧
      ∀ h, v.handle = some h → Refines demoContext v.fat h v.file := by
  have hafter : ((createdFile [73]).bind fun w =>
      gapCalls.foldlM (FileRun.perform demoContext (letterName 8)) w).map (·.file) =
      some ⟨[0, 0, 0, 0, 0, 7], 3⟩ := by decide +kernel
  obtain ⟨v, hv, hfile⟩ := Option.map_eq_some_iff.1 hafter
  obtain ⟨w, hw, hrun⟩ := Option.bind_eq_some_iff.1 hv
  refine ⟨w, v, hw, hrun, hfile, byteFile_of_run ⟨by decide, by decide, by decide⟩
    (run_of_perform gapCalls (.start (justCreated_createdFile hw)) hrun)⟩

/-- A seek to 5 behind `2 ^ 32` goes to 5. -/
theorem not_tell_farSeek :
    ¬ ∀ g name w h offset origin t, Layout g → Run (FileRun.Step g name) (JustCreated g name) w →
      w.handle = some h → fatSeek h offset origin w.fat = some (.ok (), t) →
      (fatTell t h : Int) = w.file.target offset origin := by
  intro hall
  have hafter : ((createdFile [73]).bind fun w => (fatSeek firstFile (2 ^ 32 + 5) .set w.fat).map
      fun out => (decide (w.handle = some firstFile), decide (out.1 = .ok ()),
        fatTell out.2 firstFile)) = some (true, true, 5) := by decide +kernel
  obtain ⟨w, hw, hseek⟩ := Option.bind_eq_some_iff.1 hafter
  obtain ⟨⟨r, t⟩, hrun, hresult⟩ := Option.map_eq_some_iff.1 hseek
  simp only [Prod.mk.injEq, decide_eq_true_eq] at hresult
  obtain ⟨hhandle, rfl, htell⟩ := hresult
  have hsame := hall demoContext (letterName 8) w firstFile (2 ^ 32 + 5) .set t
    ⟨by decide, by decide, by decide⟩ (.start (justCreated_createdFile hw)) hhandle hrun
  rw [htell, ByteFile.target] at hsame
  omega

end RadKernel.Fat
