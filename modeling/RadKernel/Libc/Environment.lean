import Mathlib.Data.List.TakeWhile

/-!
# The environment of the C library

`getenv`, `setenv`, `putenv` and `unsetenv` of `libs/libradc/rad_libc.c`. A C string is the list
of the characters before its terminator, and none that is handed over lies in `g_env_storage`.
A null pointer is refused at once and left out.
-/

namespace RadKernel.Libc

open List

/-- An element of `g_environ`: a cell of `g_env_storage` or the argument of a `putenv`. -/
inductive Entry where
  | cell (i : Nat)
  | string (s : List Char)
  deriving DecidableEq, Repr

inductive Errno where
  | einval
  | enomem
  deriving DecidableEq, Repr

/-- `environ` ends before the first null pointer of `g_environ`. What lies behind it is not read
again, as each store puts a null pointer behind its element. -/
structure Env where
  environ : List Entry
  storage : Nat → List Char

def Env.texts (e : Env) : List (List Char) :=
  e.environ.map fun | .cell i => e.storage i | .string s => s

/-- `g_environ[slot] = entry; g_environ[slot + 1] = 0`. -/
def Env.store (e : Env) (slot : Nat) (entry : Entry) : Env :=
  { e with environ := e.environ.take slot ++ [entry] }

/-- The cell of a slot holds what `snprintf` leaves of the text. -/
def Env.write (e : Env) (slot : Nat) (text : List Char) : Env :=
  { e with storage := Function.update e.storage slot (text.take 127) }

def initialEnv : Env where
  environ := (List.range 7).map .cell
  storage i := (["TERM=rad", "HOME=/home/root", "USER=root", "LOGNAME=root", "SHELL=/bin/rash",
    "PATH=/bin:/usr/bin", "TERMINFO=/usr/share/terminfo"].getD i "").toList

/-- A name that the calls accept. -/
def Named (name : List Char) : Prop := name ≠ [] ∧ '=' ∉ name
  deriving Decidable

def envNameMatch (name entry : List Char) : Bool :=
  entry.take name.length = name ∧ entry[name.length]? = some '='

def envFindSlot (e : Env) (name : List Char) : Option Nat :=
  e.texts.findIdx? (envNameMatch name)

def getenv (e : Env) (name : List Char) : Option (List Char) :=
  if Named name then
    (envFindSlot e name).bind fun slot => e.texts[slot]?.map (·.drop (name.length + 1))
  else none

/-- The slot that `putenv` and `setenv` store to, if there is one. -/
def slotFor (e : Env) (name : List Char) : Option Nat :=
  (envFindSlot e name).or (if e.environ.length < 64 then some e.environ.length else none)

/-- The name in a string `name=value`. -/
def nameOf (s : List Char) : List Char := s.takeWhile (· ≠ '=')

/-- The value of `errno` where the result is -1, and the environment after the call. -/
def putenv (e : Env) (string : List Char) : Option Errno × Env :=
  if '=' ∉ string ∨ nameOf string = [] then (some .einval, e)
  else
    match slotFor e (nameOf string) with
    | none => (some .enomem, e)
    | some slot => (none, e.store slot (.string string))

def setenv (e : Env) (name value : List Char) (overwrite : Bool) : Option Errno × Env :=
  if ¬Named name then (some .einval, e)
  else if envFindSlot e name ≠ none ∧ overwrite = false then (none, e)
  else
    match slotFor e name with
    | none => (some .enomem, e)
    | some slot =>
      let text := name ++ '=' :: value
      if 128 ≤ text.length then (some .enomem, e.write slot text)
      else (none, (e.write slot text).store slot (.cell slot))

def unsetenv (e : Env) (name : List Char) : Option Errno × Env :=
  if ¬Named name then (some .einval, e)
  else
    match envFindSlot e name with
    | none => (none, e)
    | some slot => (none, { e with environ := e.environ.eraseIdx slot })

inductive Request where
  | getenv (name : List Char)
  | putenv (string : List Char)
  | setenv (name value : List Char) (overwrite : Bool)
  | unsetenv (name : List Char)

def Request.perform (e : Env) : Request → Option Errno × Env
  | .getenv _ => (none, e)
  | .putenv string => Libc.putenv e string
  | .setenv name value overwrite => Libc.setenv e name value overwrite
  | .unsetenv name => Libc.unsetenv e name

/-- The environment after the calls, the last of which is the first of the list. -/
def envAfter (calls : List Request) : Env :=
  calls.foldr (fun call e => (call.perform e).2) initialEnv

/-- The value of a variable after a call that succeeds, from the one before. -/
def Request.assigned (name : List Char) (before : Option (List Char)) :
    Request → Option (List Char)
  | .getenv _ => before
  | .putenv s => if nameOf s = name then some (s.drop (name.length + 1)) else before
  | .setenv n value overwrite =>
    if n = name ∧ (overwrite = true ∨ before = none) then some value else before
  | .unsetenv n => if n = name then none else before

/-- The value of a variable in the finite map. -/
def value (name : List Char) : List Request → Option (List Char)
  | [] => getenv initialEnv name
  | call :: calls =>
    if (call.perform (envAfter calls)).1 = none then call.assigned name (value name calls)
    else value name calls

/-- No variable stands behind the slot that is stored to, and no other is in its cell. -/
def Harmless (e : Env) : Request → Prop
  | .putenv s => '=' ∈ s → ∀ slot ∈ slotFor e (nameOf s), e.environ.length ≤ slot + 1
  | .setenv name value overwrite =>
    Named name → (overwrite = true ∨ envFindSlot e name = none) →
      ∀ slot ∈ slotFor e name,
        if 128 ≤ (name ++ '=' :: value).length then .cell slot ∉ e.environ
        else e.environ.length ≤ slot + 1 ∧ .cell slot ∉ e.environ.take slot
  | _ => True

def HarmlessAll : List Request → Prop
  | [] => True
  | call :: calls => Harmless (envAfter calls) call ∧ HarmlessAll calls

/-- No two strings are of one variable. -/
def Distinct (ts : List (List Char)) : Prop :=
  ts.Pairwise fun s t => ∀ name, Named name → envNameMatch name s → ¬envNameMatch name t

variable {e e' : Env} {name s : List Char} {slot : Nat}

theorem nameOf_eq (hname : Named name) (h : envNameMatch name s) : nameOf s = name := by
  simp only [envNameMatch, decide_eq_true_eq, ← List.head?_drop] at h
  obtain ⟨htake, hhead⟩ := h
  obtain ⟨rest, hdrop⟩ := List.head?_eq_some_iff.1 hhead
  rw [nameOf, ← take_append_drop name.length s, htake, hdrop, takeWhile_append_of_pos]
  · simp
  · intro c hc
    simpa using ne_of_mem_of_not_mem hc hname.2

theorem getenv_eq (hname : Named name) :
    getenv e name = (e.texts.find? (envNameMatch name)).map (·.drop (name.length + 1)) := by
  rw [getenv, if_pos hname, List.find?_eq_bind_findIdx?_getElem?, envFindSlot]
  cases e.texts.findIdx? (envNameMatch name) <;> rfl

theorem envNameMatch_nameOf (h : '=' ∈ s) : envNameMatch (nameOf s) s := by
  induction s with
  | nil => simp at h
  | cons c s ih =>
    by_cases hc : c = '='
    · simp [nameOf, envNameMatch, hc]
    · simpa [nameOf, envNameMatch, hc] using ih (by grind)

theorem envFindSlot_none (hname : Named name) :
    envFindSlot e name = none ↔ getenv e name = none := by
  rw [getenv_eq hname, Option.map_eq_none_iff, envFindSlot, List.findIdx?_eq_none_iff]
  simp

/-- Strings of one variable are replaced, and no others of it are there. -/
theorem find_replaced {l o n r : List (List Char)} (hname : Named name)
    (hl : ∀ t ∈ l ++ r, ¬envNameMatch name t) (hold : ∀ t ∈ o, envNameMatch name t)
    (hnew : ∀ t ∈ n, envNameMatch name t) (h : e.texts = l ++ o ++ r)
    (h' : e'.texts = l ++ n ++ r) (k : List Char) :
    getenv e' k = if name = k then n.head?.map (·.drop (k.length + 1)) else getenv e k := by
  by_cases hk : Named k
  · have hnone : ∀ {ts : List _}, (∀ t ∈ ts, envNameMatch name t) → name ≠ k →
        ts.find? (envNameMatch k) = none := by
      intro ts hts hne
      refine List.find?_eq_none.2 fun t ht hmatch => hne ?_
      rw [← nameOf_eq hk hmatch, nameOf_eq hname (hts t ht)]
    rw [getenv_eq hk, getenv_eq hk, h, h']
    simp only [List.find?_append]
    split_ifs with heq
    · subst heq
      have hnot : (l ++ r).find? (envNameMatch name) = none := List.find?_eq_none.2 hl
      rw [List.find?_append, Option.or_eq_none_iff] at hnot
      rw [hnot.1, hnot.2]
      cases n <;> simp_all
    · rw [hnone hold heq, hnone hnew heq]
  · rw [getenv, getenv, if_neg hk, if_neg hk, if_neg (by rintro rfl; exact hk hname)]

/-- The slot is that of the variable or the one behind the last. -/
theorem slotFor_spec (hslot : slotFor e name = some slot) (hlast : e.environ.length ≤ slot + 1) :
    (∀ t ∈ e.texts.take slot, ¬envNameMatch name t) ∧
      ∀ t ∈ e.texts.drop slot, envNameMatch name t := by
  have hlength : e.texts.length = e.environ.length := length_map ..
  rw [slotFor, envFindSlot] at hslot
  cases hfind : e.texts.findIdx? (envNameMatch name) with
  | none =>
    rw [List.findIdx?_eq_none_iff] at hfind
    have hend : slot = e.texts.length := by grind
    simpa [hend] using hfind
  | some i =>
    obtain rfl : i = slot := by grind
    obtain ⟨hlt, hmatch, hbefore⟩ := List.findIdx?_eq_some_iff_getElem.1 hfind
    constructor
    · intro t ht
      obtain ⟨j, hj, rfl⟩ := List.mem_take_iff_getElem.1 ht
      exact hbefore j (by omega)
    · rw [drop_eq_getElem_cons hlt, drop_eq_nil_of_le (by omega)]
      simpa using hmatch

/-- A string that is stored to the slot of its variable is found from then on. -/
theorem stored (hd : Distinct e.texts) (hname : Named name) (hs : envNameMatch name s)
    (hslot : slotFor e name = some slot) (hlast : e.environ.length ≤ slot + 1)
    (htexts : e'.texts = e.texts.take slot ++ [s]) :
    Distinct e'.texts ∧ ∀ k, getenv e' k =
      if name = k then some (s.drop (k.length + 1)) else getenv e k := by
  obtain ⟨hbefore, hafter⟩ := slotFor_spec hslot hlast
  constructor
  · rw [htexts]
    refine List.pairwise_append.2 ⟨hd.sublist (take_sublist ..), by simp, ?_⟩
    intro t ht u hu k hk htk huk
    rw [List.mem_singleton.1 hu] at huk
    rw [← nameOf_eq hk huk, nameOf_eq hname hs] at htk
    exact hbefore t ht htk
  · exact find_replaced (n := [s]) (r := []) hname (by simpa using hbefore) hafter
      (by simpa using hs) (by simp) (by simpa using htexts)

/-- The strings outside a cell are as before when it is written. -/
theorem texts_write {l : List Entry} (h : .cell slot ∉ l) :
    Env.texts { e.write slot s with environ := l } = Env.texts { e with environ := l } := by
  refine map_congr_left fun entry hentry => ?_
  cases entry with
  | cell i => exact Function.update_of_ne (by rintro rfl; exact h hentry) ..
  | string => rfl

theorem texts_stored (h : .cell slot ∉ e.environ.take slot) (hs : s.length < 128) :
    ((e.write slot s).store slot (.cell slot)).texts = e.texts.take slot ++ [s] := by
  have htexts := texts_write (e := e) (s := s) h
  have hfits : s.take 127 = s := take_of_length_le (Nat.le_of_lt_succ hs)
  simp only [Env.texts, Env.write, hfits, map_take] at htexts
  simp [Env.texts, Env.store, Env.write, hfits, htexts]

/-- A variable is removed where its string is. -/
theorem removed (hd : Distinct e.texts) (hname : Named name) (hslot : envFindSlot e name = some slot)
    (htexts : e'.texts = e.texts.eraseIdx slot) :
    Distinct e'.texts ∧ ∀ k, getenv e' k = if name = k then none else getenv e k := by
  obtain ⟨hlt, hmatch, hbefore⟩ := List.findIdx?_eq_some_iff_getElem.1 hslot
  have hsplit : e.texts = e.texts.take slot ++ e.texts[slot] :: e.texts.drop (slot + 1) := by simp
  refine ⟨htexts ▸ hd.sublist (eraseIdx_sublist ..), ?_⟩
  rw [hsplit, Distinct, pairwise_append, pairwise_cons] at hd
  refine find_replaced (l := e.texts.take slot) (o := [e.texts[slot]]) (n := [])
    (r := e.texts.drop (slot + 1)) hname ?_ (by simpa using hmatch) (by simp)
    (by simp) (by simpa using htexts.trans (eraseIdx_eq_take_drop_succ ..))
  intro t ht hname'
  rcases List.mem_append.1 ht with hleft | hright
  · exact hd.2.2 t hleft _ mem_cons_self name hname hname' hmatch
  · exact hd.2.1.1 t hright name hname hmatch hname'

/-- What a call does to the finite map. -/
theorem perform_value (hd : Distinct e.texts) {call : Request} (h : Harmless e call) :
    Distinct (call.perform e).2.texts ∧ ∀ k, getenv (call.perform e).2 k =
      if (call.perform e).1 = none then call.assigned k (getenv e k) else getenv e k := by
  generalize hr : call.perform e = r
  cases call with
  | getenv => exact hr ▸ ⟨hd, fun _ => rfl⟩
  | putenv string =>
    rw [Request.perform, Libc.putenv] at hr
    split at hr
    · exact hr ▸ ⟨hd, fun _ => rfl⟩
    next hbad =>
    rw [not_or, not_not] at hbad
    split at hr
    · exact hr ▸ ⟨hd, fun _ => rfl⟩
    next slot hslot =>
    subst hr
    refine stored hd ⟨hbad.2, ?_⟩ (envNameMatch_nameOf hbad.1) hslot (h hbad.1 slot hslot) ?_
    · intro hmem
      simpa using mem_takeWhile_imp hmem
    · simp [Env.store, Env.texts, map_take]
  | setenv name value overwrite =>
    rw [Request.perform, Libc.setenv] at hr
    split at hr
    · exact hr ▸ ⟨hd, fun _ => rfl⟩
    next hname =>
    rw [not_not] at hname
    have hset := envFindSlot_none (e := e) hname
    split at hr
    · subst hr
      refine ⟨hd, fun k => ?_⟩
      simp only [Request.assigned]
      grind
    split at hr
    · exact hr ▸ ⟨hd, fun _ => rfl⟩
    next hkeep slot hslot =>
    have hnew : overwrite = true ∨ envFindSlot e name = none := by grind
    have hcell := h hname hnew slot hslot
    dsimp only at hr
    split_ifs at hr hcell with hlong
    · subst hr
      have htexts : (e.write slot (name ++ '=' :: value)).texts = e.texts := texts_write hcell
      simp only [getenv, envFindSlot, htexts]
      exact ⟨hd, fun _ => rfl⟩
    · subst hr
      obtain ⟨hdistinct, hvalue⟩ := stored hd hname (by simp [envNameMatch]) hslot hcell.1
        (texts_stored hcell.2 (Nat.not_le.1 hlong))
      refine ⟨hdistinct, fun k => (hvalue k).trans ?_⟩
      rw [hset] at hnew
      simp only [Request.assigned]
      by_cases hk : name = k <;> simp_all
  | unsetenv name =>
    rw [Request.perform, Libc.unsetenv] at hr
    split at hr
    · exact hr ▸ ⟨hd, fun _ => rfl⟩
    next hname =>
    rw [not_not] at hname
    have hset := envFindSlot_none (e := e) hname
    split at hr
    · subst hr
      refine ⟨hd, fun k => ?_⟩
      simp only [Request.assigned]
      grind
    next slot hslot =>
    exact hr ▸ removed hd hname hslot (by simp [Env.texts, eraseIdx_eq_take_drop_succ])

/-- In every run of such calls the environment is the finite map. -/
theorem getenv_eq_value (calls : List Request) (h : HarmlessAll calls) (name : List Char) :
    getenv (envAfter calls) name = value name calls := by
  suffices hall : Distinct (envAfter calls).texts ∧
      ∀ name, getenv (envAfter calls) name = value name calls from hall.2 name
  induction calls with
  | nil =>
    refine ⟨List.Pairwise.imp (R := fun s t => nameOf s ≠ nameOf t) ?_ (by decide +kernel),
      fun _ => rfl⟩
    intro s t hne name hname hs ht
    exact hne ((nameOf_eq hname hs).trans (nameOf_eq hname ht).symm)
  | cons call calls ih =>
    obtain ⟨hd, hvalue⟩ := ih h.2
    obtain ⟨hd', hnext⟩ := perform_value hd h.1
    refine ⟨hd', fun name => (hnext name).trans ?_⟩
    rw [hvalue]
    rfl

theorem getenv_eq_value_editor :
    let calls := [.setenv "EDITOR".toList "vi".toList true]
    getenv (envAfter calls) "EDITOR".toList = value "EDITOR".toList calls :=
  getenv_eq_value [.setenv _ _ _] ⟨fun _ _ => by decide +kernel, trivial⟩ _

theorem not_getenv_eq_value_term : ¬∀ calls name, getenv (envAfter calls) name = value name calls :=
  fun h => absurd (h [.setenv "TERM".toList "x".toList true] "HOME".toList) (by decide +kernel)

end RadKernel.Libc
