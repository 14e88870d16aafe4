import RadKernel.Compositor.Compose

/-!
# Damage

A call that changes what surfaces show queues rectangles. While the ring has room each of
them is kept, and the pixels outside of them have the layers they had.
-/

namespace RadKernel.Compositor

variable {c c' d : State} {rect r : Rect} {x y : Nat} {id flags : UInt32} {i j : Fin maxSurfaces}
  {surface : Surface} {memory : Nat → UInt32} {config : SurfaceConfig}

/-! ## Slots -/

theorem findSurface_id (h : findSurface c id = some i) : (c.surfaces i).id = id ∧ id ≠ 0 := by
  rw [findSurface] at h
  split_ifs at h with hid
  exact ⟨by simpa using List.find?_some h, hid⟩

theorem findSurface_congr (h : ∀ i, (c'.surfaces i).id = (c.surfaces i).id) (id : UInt32) :
    findSurface c' id = findSurface c id := by
  simp only [findSurface, h]

theorem setSurface_surfaces (c : State) (i : Fin maxSurfaces) (surface : Surface)
    (j : Fin maxSurfaces) :
    (setSurface c i surface).surfaces j = if j = i then surface else c.surfaces j :=
  Function.update_apply _ _ _ _

theorem findSurface_setSurface (h : surface.id = (c.surfaces i).id) (id : UInt32) :
    findSurface (setSurface c i surface) id = findSurface c id := by
  refine findSurface_congr (fun j => ?_) id
  rw [setSurface_surfaces]
  split_ifs with hj
  · rw [hj, h]
  · rfl

/-- A surface with a new identifier is found. -/
theorem findSurface_created (i : Fin maxSurfaces) (hid : surface.id ≠ 0)
    (hnew : findSurface c surface.id = none) :
    findSurface (setSurface c i surface) surface.id = some i := by
  rw [findSurface, if_neg hid] at hnew ⊢
  have hother : ∀ j, (c.surfaces j).id ≠ surface.id := by
    intro j
    simpa using List.find?_eq_none.1 hnew j (List.mem_finRange j)
  cases hfind : (List.finRange maxSurfaces).find? fun j =>
      ((setSurface c i surface).surfaces j).id = surface.id with
  | none =>
    have hself := List.find?_eq_none.1 hfind i (List.mem_finRange i)
    rw [setSurface_surfaces, if_pos rfl] at hself
    simp at hself
  | some j =>
    have hj := List.find?_some hfind
    rw [setSurface_surfaces] at hj
    split_ifs at hj with hji
    · rw [hji]
    · exact absurd (of_decide_eq_true hj) (hother j)

/-! ## The ring -/

/-- A rectangle was added to the ring, and nothing else happened. -/
structure Adds (c c' : State) (r : Rect) : Prop where
  same : ∃ ring n, c' = { c with damage := ring, damageCount := n }
  keeps : ∀ x y, Damaged c x y → Damaged c' x y
  has : ∀ x y : Nat, r.Has x y → Damaged c' x y
  count : c'.damageCount ≤ c.damageCount + 1

theorem queued_push (hroom : c.damageCount < maxDamage) (entry : Damage) :
    queued { c with
      damage := Function.update c.damage ((c.damageHead + c.damageCount) % maxDamage) entry
      damageCount := c.damageCount + 1 } = queued c ++ [entry.rect] := by
  simp only [queued]
  rw [List.range_succ, List.map_append, List.map_singleton, Function.update_self]
  congr 1
  refine List.map_congr_left fun n hn => ?_
  have hlt := List.mem_range.1 hn
  rw [Function.update_of_ne]
  simp only [maxDamage] at *
  omega

theorem Rect.not_has_empty (h : rect.width ≤ 0 ∨ rect.height ≤ 0) (bounds : Rect) (x y : Int) :
    ¬ (damageRect bounds rect flags).Has x y := by
  rw [damageRect]
  split_ifs <;> simp only [Rect.Has] <;> omega

theorem queueDamage_adds (rect : Rect) (flags : UInt32) (hfind : findSurface c id = some i)
    (hroom : c.damageCount < maxDamage) :
    Adds c (queueDamage c id rect flags).2 (damageRect (c.surfaces i).bounds rect flags) := by
  rw [queueDamage]
  by_cases hempty : rect.width ≤ 0 ∨ rect.height ≤ 0
  · rw [if_pos hempty]
    exact ⟨⟨_, _, rfl⟩, fun _ _ h => h, fun x y h => absurd h (Rect.not_has_empty hempty _ _ _),
      Nat.le_succ _⟩
  · rw [if_neg hempty, hfind]
    simp only
    rw [if_neg (by omega)]
    have hqueued := queued_push hroom ⟨id, damageRect (c.surfaces i).bounds rect flags, flags⟩
    refine ⟨⟨_, _, rfl⟩, fun x y h => ?_, fun x y h => ?_, Nat.le_refl _⟩
    · obtain ⟨r, hr, hhas⟩ := h
      exact ⟨r, hqueued ▸ List.mem_append_left _ hr, hhas⟩
    · exact ⟨_, hqueued ▸ List.mem_append_right _ (List.mem_singleton_self _), h⟩

/-- The whole of a surface is damaged, in either coordinate system. -/
theorem queueSurfaceFullDamage_adds (flags : UInt32)
    (hfind : findSurface c (c.surfaces i).id = some i) (hroom : c.damageCount < maxDamage) :
    Adds c (queueSurfaceFullDamage c i flags) (c.surfaces i).bounds := by
  have hid := (findSurface_id hfind).2
  rw [queueSurfaceFullDamage]
  rw [if_neg hid]
  have hadds := queueDamage_adds (if flags &&& damageExposed ≠ 0 then (c.surfaces i).bounds
      else { width := (c.surfaces i).bounds.width, height := (c.surfaces i).bounds.height })
    flags hfind hroom
  have hrect : damageRect (c.surfaces i).bounds
      (if flags &&& damageExposed ≠ 0 then (c.surfaces i).bounds
        else { width := (c.surfaces i).bounds.width, height := (c.surfaces i).bounds.height })
      flags = (c.surfaces i).bounds := by
    rw [damageRect]
    split_ifs
    · rfl
    · simp
  rwa [hrect] at hadds

theorem Adds.findSurface (h : Adds c c' r) (id : UInt32) :
    findSurface c' id = findSurface c id := by
  obtain ⟨ring, n, rfl⟩ := h.same
  rfl

theorem Adds.surfaces (h : Adds c c' r) : c'.surfaces = c.surfaces := by
  obtain ⟨ring, n, rfl⟩ := h.same
  rfl

/-! ## Absorbed changes -/

/-- The framebuffer is the same, and the pixels whose layers change are damaged. -/
structure Absorbs (c c' : State) : Prop where
  sound : Sound c → Sound c'
  frame : pixel c' = pixel c
  size : InFrame c' = InFrame c
  clear : c'.clearColor = c.clearColor
  keeps : ∀ x y, Damaged c x y → Damaged c' x y
  layers : ∀ x y, InFrame c x y → ¬ Damaged c' x y →
    ∀ i, (c'.surfaces i).layerAt c'.memory x y = (c.surfaces i).layerAt c.memory x y

theorem Absorbs.refl (c : State) : Absorbs c c :=
  ⟨id, rfl, rfl, rfl, fun _ _ h => h, fun _ _ _ _ _ => rfl⟩

theorem Absorbs.trans (h : Absorbs c c') (h' : Absorbs c' d) : Absorbs c d where
  sound hsound := h'.sound (h.sound hsound)
  frame := h'.frame.trans h.frame
  size := h'.size.trans h.size
  clear := h'.clear.trans h.clear
  keeps x y hold := h'.keeps x y (h.keeps x y hold)
  layers x y hin hnot i := by
    rw [h'.layers x y (h.size ▸ hin) hnot i]
    exact h.layers x y hin (fun hold => hnot (h'.keeps x y hold)) i

theorem Absorbs.fresh (h : Absorbs c c') (hfresh : Fresh c) : Fresh c' := by
  intro x y hin
  rw [h.size] at hin
  by_cases hdamaged : Damaged c' x y
  · exact .inl hdamaged
  · have hpixel : pixel c x y = stackColor c x y :=
      (hfresh x y hin).resolve_left fun hold => hdamaged (h.keeps x y hold)
    have hstack : stack c' x y = stack c x y :=
      List.filterMap_congr fun i _ => h.layers x y hin hdamaged i
    refine .inr ?_
    rw [h.frame, hpixel, stackColor, stackColor, hstack, h.clear]

/-- A change of surfaces and pixels, with the rectangle of the change added to the ring. -/
theorem Adds.absorbs (h : Adds c' d r) (hsound : Sound c → Sound c') (hframe : pixel c' = pixel c)
    (hsize : InFrame c' = InFrame c) (hclear : c'.clearColor = c.clearColor)
    (hkeeps : ∀ x y, Damaged c x y → Damaged c' x y)
    (hlayers : ∀ x y, InFrame c x y → ¬ Damaged c' x y → ¬ r.Has x y →
      ∀ i, (c'.surfaces i).layerAt c'.memory x y = (c.surfaces i).layerAt c.memory x y) :
    Absorbs c d := by
  obtain ⟨ring, n, rfl⟩ := h.same
  refine ⟨fun hc => ?_, hframe, hsize, hclear, fun x y hold => h.keeps x y (hkeeps x y hold), ?_⟩
  · obtain ⟨hfront, hstride, hz, hid⟩ := hsound hc
    exact ⟨hfront, hstride, hz, hid⟩
  · intro x y hin hnot i
    exact hlayers x y hin (fun hold => hnot (h.keeps x y hold)) (fun hhas => hnot (h.has x y hhas)) i

theorem Sound.setSurface (h : Sound c) (i : Fin maxSurfaces) (hz : int32Min ≤ surface.z) :
    Sound (setSurface c i surface) := by
  refine ⟨h.front, h.stride, fun j => ?_, h.nextId⟩
  rw [setSurface_surfaces]
  split_ifs
  · exact hz
  · exact h.z j

theorem layers_setSurface
    (h : surface.layerAt memory x y = (c.surfaces i).layerAt memory x y) (j : Fin maxSurfaces) :
    ((setSurface c i surface).surfaces j).layerAt memory x y =
      (c.surfaces j).layerAt memory x y := by
  rw [setSurface_surfaces]
  split_ifs with hj
  · rw [h, hj]
  · rfl

theorem setSurface_absorbs (hfind : findSurface c (c.surfaces i).id = some i)
    (hroom : c.damageCount < maxDamage) (hid : surface.id = (c.surfaces i).id)
    (hbounds : surface.bounds = (c.surfaces i).bounds) (hz : Sound c → int32Min ≤ surface.z) :
    Absorbs c (queueSurfaceFullDamage (setSurface c i surface) i flags) := by
  have hself : (setSurface c i surface).surfaces i = surface := by
    rw [setSurface_surfaces, if_pos rfl]
  have hfound : findSurface (setSurface c i surface) ((setSurface c i surface).surfaces i).id =
      some i := by
    rw [findSurface_setSurface hid, hself, hid, hfind]
  have hadds := queueSurfaceFullDamage_adds flags hfound hroom
  refine hadds.absorbs (fun hsound => hsound.setSurface i (hz hsound)) rfl rfl rfl
    (fun _ _ h => h) fun x y _ _ hout => ?_
  rw [hself] at hout
  refine layers_setSurface ?_
  rw [layerAt_outside hout, layerAt_outside (hbounds ▸ hout)]

theorem createSurface_absorbs (hvalid : ConfigValid config → freeSlot c ≠ none →
      c.damageCount < maxDamage ∧ findSurface c c.nextSurfaceId = none)
    (hz : int32Min ≤ config.z) (hsound : Sound c) : Absorbs c (createSurface c config).2 := by
  rw [createSurface]
  by_cases hconfig : ConfigValid config
  swap
  · rw [if_pos hconfig]
    exact Absorbs.refl c
  rw [if_neg (not_not.2 hconfig)]
  cases hslot : freeSlot c with
  | none => exact Absorbs.refl c
  | some i =>
    obtain ⟨hroom, hnew⟩ := hvalid hconfig (by rw [hslot]; exact Option.some_ne_none i)
    have hfree : (c.surfaces i).id = 0 := by simpa using List.find?_some hslot
    have hempty : ∀ x y, (c.surfaces i).layerAt c.memory x y = none := by
      intro x y
      rw [Surface.layerAt, if_neg fun hall => hall.1 hfree]
    let next : UInt32 := if c.nextSurfaceId + 1 = 0 then 1 else c.nextSurfaceId + 1
    let numbered : State := { c with nextSurfaceId := next }
    have hnext : next ≠ 0 := by
      dsimp only [next]
      split_ifs with hwrap
      · decide
      · exact hwrap
    have hself : (setSurface numbered i (config.surface c.nextSurfaceId)).surfaces i =
        config.surface c.nextSurfaceId := by
      rw [setSurface_surfaces, if_pos rfl]
    have hfound : findSurface (setSurface numbered i (config.surface c.nextSurfaceId))
        ((setSurface numbered i (config.surface c.nextSurfaceId)).surfaces i).id = some i := by
      rw [hself]
      exact findSurface_created i hsound.nextId hnew
    have hadds := queueSurfaceFullDamage_adds 0 hfound hroom
    refine hadds.absorbs (fun _ => ?_) rfl rfl rfl (fun _ _ h => h) fun x y _ _ hout => ?_
    · exact Sound.setSurface (c := numbered) ⟨hsound.front, hsound.stride, hsound.z, hnext⟩ i hz
    · rw [hself] at hout
      refine layers_setSurface ?_
      rw [layerAt_outside hout]
      exact (hempty x y).symm

theorem destroySurface_absorbs (hexposed : ∀ i, findSurface c id = some i →
      (c.surfaces i).visible = true →
      ∀ x y, InFrame c x y → (c.surfaces i).bounds.Has x y → Damaged c x y) :
    Absorbs c (destroySurface c id).2 := by
  rw [destroySurface]
  cases hfind : findSurface c id with
  | none => exact Absorbs.refl c
  | some i =>
    refine ⟨fun hsound => hsound.setSurface i (by decide), rfl, rfl, rfl, fun _ _ h => h, ?_⟩
    intro x y hin hnot j
    have hgone : (c.surfaces i).layerAt c.memory x y = none := by
      by_cases hvisible : (c.surfaces i).visible = true
      · exact layerAt_outside fun hhas => hnot (hexposed i hfind hvisible x y hin hhas)
      · exact layerAt_hidden (Bool.eq_false_of_not_eq_true hvisible)
    refine layers_setSurface ?_ j
    exact (layerAt_hidden rfl).trans hgone.symm

theorem moveSurface_absorbs (hold : Adds c d (c.surfaces i).bounds)
    (hfind : findSurface c (c.surfaces i).id = some i) (hroom : d.damageCount < maxDamage)
    (hid : surface.id = (c.surfaces i).id) (hz : Sound c → int32Min ≤ surface.z) :
    Absorbs c (queueSurfaceFullDamage (setSurface d i surface) i flags) := by
  have hsurfaces := hold.surfaces
  have hself : (setSurface d i surface).surfaces i = surface := by
    rw [setSurface_surfaces, if_pos rfl]
  have hfound : findSurface (setSurface d i surface) ((setSurface d i surface).surfaces i).id =
      some i := by
    rw [findSurface_setSurface (by rw [hsurfaces, hid]), hself, hid, hold.findSurface, hfind]
  have hadds := queueSurfaceFullDamage_adds flags hfound hroom
  rw [hself] at hadds
  obtain ⟨ring, n, hsame⟩ := hold.same
  refine hadds.absorbs (fun hsound => ?_) (by rw [hsame]; rfl) (by rw [hsame]; rfl)
    (by rw [hsame]; rfl) (fun x y hdam => hold.keeps x y hdam) fun x y _ hnot hout j => ?_
  · refine Sound.setSurface ?_ i (hz hsound)
    rw [hsame]
    exact ⟨hsound.front, hsound.stride, hsound.z, hsound.nextId⟩
  · have hleft : ¬ (c.surfaces i).bounds.Has x y := fun hhas => hnot (hold.has x y hhas)
    have hmemory : d.memory = c.memory := by rw [hsame]
    rw [← hsurfaces] at hleft ⊢
    rw [← hmemory]
    refine layers_setSurface ?_ j
    rw [layerAt_outside hleft, layerAt_outside hout]

theorem setSurfaceBounds_absorbs (hroom : findSurface c id ≠ none → 0 < rect.width →
      0 < rect.height → c.damageCount + 2 ≤ maxDamage) :
    Absorbs c (setSurfaceBounds c id rect).2 := by
  rw [setSurfaceBounds]
  cases hfind : findSurface c id with
  | none => exact Absorbs.refl c
  | some i =>
    split_ifs with hempty
    · exact Absorbs.refl c
    have hspace := hroom (by rw [hfind]; exact Option.some_ne_none i) (by omega) (by omega)
    have hold := queueDamage_adds (c.surfaces i).bounds damageExposed hfind (by omega)
    have hcount := hold.count
    refine moveSurface_absorbs hold ?_ (by omega) ?_ fun hsound => ?_
    · rw [(findSurface_id hfind).1, hfind]
    · exact congrArg (fun f => (f i).id) hold.surfaces
    · simp only [hold.surfaces]
      exact hsound.z i

theorem le_maxZ (c : State) (z : Int) : z ≤ maxZ c z := by
  have hall : ∀ (l : List (Fin maxSurfaces)) (m : Int), m ≤ l.foldl
      (fun maxZ i =>
        if (c.surfaces i).id ≠ 0 ∧ maxZ < (c.surfaces i).z then (c.surfaces i).z else maxZ) m := by
    intro l
    induction l with
    | nil => exact fun m => le_refl m
    | cons i l ih =>
      intro m
      refine le_trans ?_ (ih _)
      simp only
      split_ifs <;> omega
  exact hall _ z

theorem focusSurface_absorbs (hroom : findSurface c id ≠ none → c.damageCount < maxDamage) :
    Absorbs c (focusSurface c id).2 := by
  rw [focusSurface]
  cases hfind : findSurface c id with
  | none => exact Absorbs.refl c
  | some i =>
    have hself : findSurface c (c.surfaces i).id = some i := by
      rw [(findSurface_id hfind).1, hfind]
    refine setSurface_absorbs hself (hroom (by rw [hfind]; exact Option.some_ne_none i)) rfl rfl ?_
    intro hsound
    have := le_maxZ c (c.surfaces i).z
    have := hsound.z i
    simp only
    omega

theorem setSurfaceVisible_absorbs {visible : Bool}
    (hroom : findSurface c id ≠ none → c.damageCount < maxDamage) :
    Absorbs c (setSurfaceVisible c id visible).2 := by
  rw [setSurfaceVisible]
  cases hfind : findSurface c id with
  | none => exact Absorbs.refl c
  | some i =>
    have hself : findSurface c (c.surfaces i).id = some i := by
      rw [(findSurface_id hfind).1, hfind]
    exact setSurface_absorbs hself (hroom (by rw [hfind]; exact Option.some_ne_none i)) rfl rfl
      fun hsound => hsound.z i

end RadKernel.Compositor
