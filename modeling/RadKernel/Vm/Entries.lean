import RadKernel.Vm.Model

/-!
# Entries of page tables

An entry is eight bytes of the page that holds its table. Writing one gives it back on the next
read and leaves the others alone.
-/

namespace RadKernel.Vm

open Prog

variable {κ : Type} {s : VmState κ} {e : Pte} {table index page : Nat}

/-- The bytes of an entry have room for 40 bits of the page number. -/
def Pte.Fits (e : Pte) : Prop := e.page < 2 ^ 40

theorem toNat_toUInt8 (x : Nat) : x.toUInt8.toNat = x % 256 := by simp

theorem Pte.ofBytes_congr {b c : Page} {o p : Nat} (h : ∀ k < 8, b (o + k) = c (p + k)) :
    Pte.ofBytes b o = Pte.ofBytes c p := by
  have h0 : b o = c p := h 0 (by omega)
  simp only [Pte.ofBytes, h0, h 1 (by omega), h 2 (by omega), h 3 (by omega), h 4 (by omega),
    h 5 (by omega), h 6 (by omega)]

@[simp] theorem Pte.length_bytes (e : Pte) : e.bytes.length = 8 := rfl

theorem flag_bits (present write user cacheDisable large cow : Bool) (p : Nat) :
    let low := (present.toNat + 2 * write.toNat + 4 * user.toNat + 16 * cacheDisable.toNat +
      128 * large.toNat).toUInt8
    let high := (2 * cow.toNat + 16 * (p % 16)).toUInt8
    bit low 0 = present ∧ bit low 1 = write ∧ bit low 2 = user ∧ bit low 4 = cacheDisable ∧
      bit low 7 = large ∧ bit high 1 = cow := by
  have hlow : ∀ a b c d f : Bool,
      let low := (a.toNat + 2 * b.toNat + 4 * c.toNat + 16 * d.toNat + 128 * f.toNat).toUInt8
      bit low 0 = a ∧ bit low 1 = b ∧ bit low 2 = c ∧ bit low 4 = d ∧ bit low 7 = f := by
    decide
  have hhigh : ∀ (a : Bool) (q : Fin 16), bit (2 * a.toNat + 16 * q.val).toUInt8 1 = a := by
    decide
  obtain ⟨h0, h1, h2, h4, h7⟩ := hlow present write user cacheDisable large
  exact ⟨h0, h1, h2, h4, h7, hhigh cow ⟨p % 16, Nat.mod_lt _ (by omega)⟩⟩

/-- An entry is read back from its bytes. -/
theorem Pte.ofBytes_bytes (h : e.Fits) {b : Page} {o : Nat}
    (hb : ∀ k (hk : k < e.bytes.length), b (o + k) = e.bytes[k]) : Pte.ofBytes b o = e := by
  obtain ⟨page, present, write, user, cacheDisable, large, cow⟩ := e
  obtain ⟨h0, h1, h2, h4, h7, hcow⟩ :=
    flag_bits present write user cacheDisable large cow page
  have hlt : page < 2 ^ 40 := h
  have hbyte := fun k (hk : k < 8) => hb k hk
  have hb0 : b o = _ := hbyte 0 (by omega)
  rw [Pte.ofBytes, hb0, hbyte 1 (by omega), hbyte 2 (by omega), hbyte 3 (by omega),
    hbyte 4 (by omega), hbyte 5 (by omega), hbyte 6 (by omega)]
  have hflag := Bool.toNat_le cow
  simp only [Pte.bytes, List.getElem_cons_zero, List.getElem_cons_succ, Pte.mk.injEq]
  refine ⟨?_, h0, h1, h2, h4, h7, hcow⟩
  simp only [toNat_toUInt8]
  omega

/-- The state after `setEntry`. -/
def VmState.withEntry (s : VmState κ) (table index : Nat) (e : Pte) : VmState κ :=
  { s with
    memory := Function.update s.memory table
      (Buffer.store (s.memory table) (8 * index) e.bytes) }

@[simp] theorem setEntry_apply (s : VmState κ) :
    setEntry table index e s = some (.ok (), s.withEntry table index e) := rfl

theorem entry_withEntry (h : e.Fits) (t i : Nat) :
    (s.withEntry table index e).entry t i =
      if t = table ∧ i = index then e else s.entry t i := by
  by_cases ht : t = table
  · subst ht
    by_cases hi : i = index
    · subst hi
      rw [if_pos ⟨rfl, rfl⟩]
      refine Pte.ofBytes_bytes h fun k hk => ?_
      simp [VmState.withEntry, Buffer.store, List.getElem?_eq_getElem hk]
    · rw [if_neg (by simp [hi])]
      refine Pte.ofBytes_congr fun k hk => ?_
      simp only [VmState.withEntry, Function.update_self, Buffer.store]
      split_ifs with hle
      · rw [List.getElem?_eq_none (by rw [Pte.length_bytes]; omega)]
        rfl
      · rfl
  · rw [if_neg (by simp [ht])]
    simp [VmState.entry, VmState.withEntry, ht]

theorem memory_withEntry (hp : page ≠ table) :
    (s.withEntry table index e).memory page = s.memory page := by
  simp [VmState.withEntry, hp]

/-- The entries of a page of zeros. -/
theorem Pte.ofBytes_zero (o : Nat) : Pte.ofBytes (fun _ => 0) o = {} := by
  simp [Pte.ofBytes, bit]

end RadKernel.Vm
