import RadKernel.Net.Holders

/-!
# Closing a socket of a pair

`close_fd_record` unlinks the peer of a socket, drops the connections that wait in its queue,
each with the link of its own peer, and clears the record. Where links are symmetric this leaves
no link to a record that was cleared.
-/

namespace RadKernel.Net

open Kernel Fd

variable {s : KernelState} {i k n : Nat}

/-- A record of the table in use. -/
def Live (s : KernelState) (i : Nat) : Prop := i < maxUdpSockets ∧ (s.sockets i).used = true

instance Live.decidable (s : KernelState) (i : Nat) : Decidable (Live s i) :=
  inferInstanceAs (Decidable (_ ∧ _))

/-- Links between sockets go both ways. -/
structure Symmetric (s : KernelState) : Prop where
  back : ∀ i, Live s i → (s.sockets i).peerIndex < maxUdpSockets →
    Live s (s.sockets i).peerIndex ∧ (s.sockets (s.sockets i).peerIndex).peerIndex = i
  irrefl : ∀ i, Live s i → (s.sockets i).peerIndex ≠ i

/-- Among the first `n` waiting connections of socket `k`. -/
def Waiting (s : KernelState) (k n i : Nat) : Prop :=
  ∃ m < n, (s.sockets k).pendingAccepts m = i

instance Waiting.decidable (s : KernelState) (k n i : Nat) : Decidable (Waiting s k n i) :=
  inferInstanceAs (Decidable (∃ m < n, _))

/-- The records that are cleared with a socket. -/
def Dead (s : KernelState) (k i : Nat) : Prop := i = k ∨ Waiting s k (s.sockets k).pendingCount i

instance Dead.decidable (s : KernelState) (k i : Nat) : Decidable (Dead s k i) :=
  inferInstanceAs (Decidable (_ ∨ _))

/-- The queue of a socket names records in use, each once and not the socket itself. -/
structure Queue (s : KernelState) (k : Nat) : Prop where
  live : ∀ n < (s.sockets k).pendingCount, Live s ((s.sockets k).pendingAccepts n)
  other : ∀ n < (s.sockets k).pendingCount, (s.sockets k).pendingAccepts n ≠ k
  once : ∀ m n, m < (s.sockets k).pendingCount → n < (s.sockets k).pendingCount →
    (s.sockets k).pendingAccepts m = (s.sockets k).pendingAccepts n → m = n

/-- The record of socket `i` while `k` is closed and its first `n` waiting connections are
dropped. -/
def closing (s : KernelState) (k n i : Nat) : SocketRecord :=
  if i = k then s.sockets k
  else if Waiting s k n i then {}
  else if Live s i ∧ ((s.sockets i).peerIndex = k ∨ Waiting s k n (s.sockets i).peerIndex) then
    { s.sockets i with peerIndex := maxUdpSockets }
  else s.sockets i

theorem Symmetric.linked (hs : Symmetric s) (hk : k < maxUdpSockets) (hi : Live s i)
    (h : (s.sockets i).peerIndex = k) : (s.sockets k).peerIndex = i ∧ Live s k := by
  have hback := hs.back i hi (h ▸ hk)
  rw [h] at hback
  exact ⟨hback.2, hback.1⟩

theorem unlinkPeer_sockets (hs : Symmetric s) (hk : Live s k) (i : Nat) :
    (unlinkPeer s k).sockets i =
      if Live s i ∧ (s.sockets i).peerIndex = k then { s.sockets i with peerIndex := maxUdpSockets }
      else s.sockets i := by
  simp only [unlinkPeer]
  by_cases hpeer : (s.sockets k).peerIndex < maxUdpSockets
  · obtain ⟨hlive, hback⟩ := hs.back k hk hpeer
    rw [if_pos ⟨hpeer, hlive.2⟩]
    by_cases hi : i = (s.sockets k).peerIndex
    · subst hi
      rw [if_pos ⟨hlive, hback⟩]
      simp [setSocket]
    · rw [if_neg fun h => hi (hs.linked hk.1 h.1 h.2).1.symm]
      simp [setSocket, hi]
  · rw [if_neg fun h => hpeer h.1, if_neg]
    rintro ⟨hi, hlink⟩
    rw [(hs.linked hk.1 hi hlink).1] at hpeer
    exact hpeer hi.1

theorem waiting_succ : Waiting s k (n + 1) i ↔
    Waiting s k n i ∨ (s.sockets k).pendingAccepts n = i := by
  constructor
  · rintro ⟨m, hm, rfl⟩
    by_cases hmn : m = n
    · exact .inr (by rw [hmn])
    · exact .inl ⟨m, by omega, rfl⟩
  · rintro (⟨m, hm, rfl⟩ | rfl)
    · exact ⟨m, by omega, rfl⟩
    · exact ⟨n, by omega, rfl⟩

theorem closing_zero (hs : Symmetric s) (hk : Live s k) (i : Nat) :
    (unlinkPeer s k).sockets i = closing s k 0 i := by
  have hnone : ∀ i, ¬ Waiting s k 0 i := by simp [Waiting]
  have hirrefl := hs.irrefl k hk
  rw [unlinkPeer_sockets hs hk]
  simp only [closing, hnone, if_false, or_false]
  by_cases hi : i = k
  · subst hi
    simp [hirrefl]
  · simp [hi]

/-- The next waiting connection does not concern a record it is not linked to. -/
theorem closing_succ (hi : (s.sockets k).pendingAccepts n ≠ i)
    (hlink : Live s i → (s.sockets i).peerIndex = (s.sockets k).pendingAccepts n →
      i = k ∨ Waiting s k n i) : closing s k (n + 1) i = closing s k n i := by
  simp only [closing, waiting_succ, hi, or_false]
  grind

section
variable (hs : Symmetric s) (hk : Live s k) (hq : Queue s k)
include hs hk hq

theorem dropPending_sockets (hn : n ≤ (s.sockets k).pendingCount) (i : Nat) :
    (dropPending k n (unlinkPeer s k)).sockets i = closing s k n i := by
  induction n generalizing i with
  | zero => exact closing_zero hs hk i
  | succ n ih =>
    have ih := ih (by omega)
    simp only [dropPending]
    generalize dropPending k n (unlinkPeer s k) = u at ih ⊢
    have hself : u.sockets k = s.sockets k := by simp [ih, closing]
    simp only [hself]
    generalize hp : (s.sockets k).pendingAccepts n = p
    have hlive : Live s p := hp ▸ hq.live n hn
    have hpk : p ≠ k := hp ▸ hq.other n hn
    have hfresh : ¬ Waiting s k n p := by
      rintro ⟨m, hm, hsame⟩
      have := hq.once m n (by omega) hn (hsame.trans hp.symm)
      omega
    rw [if_pos ⟨hn, hlive.1⟩]
    have hgone : closing s k (n + 1) p = {} := by
      simp [closing, hpk, waiting_succ, hp]
    by_cases hdead : (s.sockets p).peerIndex = k ∨ Waiting s k n (s.sockets p).peerIndex
    · -- the peer went before it
      have hup : (u.sockets p).peerIndex = maxUdpSockets := by
        simp [ih, closing, hpk, hfresh, hlive, hdead]
      have hunlink : unlinkPeer u p = u := by simp [unlinkPeer, hup]
      by_cases hi : i = p
      · simp [setSocket, hi, hgone]
      · rw [hunlink, closing_succ (hp ▸ Ne.symm hi), ← ih]
        · simp [setSocket, hi]
        · intro hiLive hlink
          rw [hp] at hlink
          rwa [(hs.linked hlive.1 hiLive hlink).1] at hdead
    · have hup : u.sockets p = s.sockets p := by
        simp only [ih, closing, hpk, hfresh, hlive, hdead, if_false, and_false]
      by_cases hpeer : (s.sockets p).peerIndex < maxUdpSockets
      · obtain ⟨hjLive, hback⟩ := hs.back p hlive hpeer
        have hirrefl := hs.irrefl p hlive
        generalize hj : (s.sockets p).peerIndex = j at hjLive hback hdead hpeer hirrefl
        rw [not_or] at hdead
        have huj : u.sockets j = s.sockets j := by
          simp [ih, closing, hdead, hback, hpk, hfresh]
        have hunlink : unlinkPeer u p =
            setSocket u j { s.sockets j with peerIndex := maxUdpSockets } := by
          simp [unlinkPeer, hup, hj, huj, hpeer, hjLive.2]
        rw [hunlink]
        by_cases hi : i = p
        · simp [setSocket, hi, hgone]
        · by_cases hij : i = j
          · subst hij
            simp [setSocket, hi, closing, waiting_succ, hp, hdead, hjLive, hback, Ne.symm hi]
          · rw [closing_succ (hp ▸ Ne.symm hi), ← ih]
            · simp [setSocket, hi, hij]
            · intro hiLive hlink
              rw [hp] at hlink
              exact absurd ((hs.linked hlive.1 hiLive hlink).1.symm.trans hj) hij
      · have hunlink : unlinkPeer u p = u := by simp [unlinkPeer, hup, hpeer]
        by_cases hi : i = p
        · simp [setSocket, hi, hgone]
        · rw [hunlink, closing_succ (hp ▸ Ne.symm hi), ← ih]
          · simp [setSocket, hi]
          · intro hiLive hlink
            rw [hp] at hlink
            rw [(hs.linked hlive.1 hiLive hlink).1] at hpeer
            exact absurd hiLive.1 hpeer

/-- A closed socket goes with the connections that wait for it, and no link to them is left. -/
theorem closeSocket_sockets (i : Nat) :
    (closeSocket s k).sockets i =
      if Dead s k i then {}
      else if Live s i ∧ Dead s k (s.sockets i).peerIndex then
        { s.sockets i with peerIndex := maxUdpSockets }
      else s.sockets i := by
  have hcount : ((unlinkPeer s k).sockets k).pendingCount = (s.sockets k).pendingCount := by
    simp [closing_zero hs hk, closing]
  unfold closeSocket
  rw [if_pos hk.1]
  dsimp only
  rw [hcount]
  by_cases hi : i = k
  · simp [setSocket, hi, Dead]
  · have hdead : Dead s k i ↔ Waiting s k (s.sockets k).pendingCount i := by simp [Dead, hi]
    simp only [setSocket, Function.update_of_ne hi, dropPending_sockets hs hk hq (Nat.le_refl _),
      closing, hi, if_false]
    by_cases hw : Waiting s k (s.sockets k).pendingCount i
    · rw [if_pos hw, if_pos (hdead.2 hw)]
    · rw [if_neg hw, if_neg (mt hdead.1 hw)]
      rfl

end

end RadKernel.Net
