/-
Addresses and interfaces in `net.c`: which addresses match under a mask, the iterator over the
interfaces of an address family, and the search for an interface that reaches a destination. What
`getifaddrs` returns comes from outside.
-/
import Mathlib.Data.List.Basic

namespace CMx.Iface

def afUnspec : UInt16 := 0
def afInet : UInt16 := 2
def afInet6 : UInt16 := 10

def iffUp : UInt32 := 0x1
def iffRunning : UInt32 := 0x40

/-! ## Addresses -/

/-- `struct sockaddr`, with what its family says that it holds. -/
inductive SockAddr where
  | inet (port : UInt16) (addr : UInt32)
  | inet6 (port : UInt16) (flowinfo : UInt32) (addr : Vector UInt8 16) (scope : UInt32)
  | other (family : UInt16) (h : family ≠ afInet ∧ family ≠ afInet6)
  deriving DecidableEq

def SockAddr.family : SockAddr → UInt16
  | .inet .. => afInet
  | .inet6 .. => afInet6
  | .other family _ => family

/-- `net_addr_copy`: what is written to the other address, if anything is. -/
def netAddrCopy : SockAddr → Option SockAddr
  | .other .. => none
  | sa => some sa

/-- `net_addr_match` on pointers to addresses. -/
def netAddrMatch : SockAddr → SockAddr → SockAddr → Bool
  | .inet _ addr1, .inet _ addr2, .inet _ mask => addr1 &&& mask == addr2 &&& mask
  | .inet6 _ _ addr1 _, .inet6 _ _ addr2 _, .inet6 _ _ mask _ =>
    (List.finRange 16).all fun i => addr1.get i &&& mask.get i == addr2.get i &&& mask.get i
  | _, _, _ => false

/-! ## Interfaces -/

/-- `struct ifaddrs`; its pointers may be NULL. -/
structure Ifaddrs where
  flags : UInt32
  addr : Option SockAddr
  netmask : Option SockAddr
  deriving DecidableEq

def netIfaceIsUp (ifa : Ifaddrs) : Bool := ifa.flags &&& iffUp != 0

def netIfaceIsRunning (ifa : Ifaddrs) : Bool := ifa.flags &&& iffRunning != 0

/-- An iterator: the list, and the rest of it from the entry that `ifa` points to on, which is empty for NULL. -/
structure IfaceIterator where
  addrFamily : UInt16
  ifaddrs : List Ifaddrs
  iface : List Ifaddrs
  deriving DecidableEq

def netIfaceIteratorNew (ifaddrs : List Ifaddrs) (addrFamily : UInt16) : IfaceIterator := ⟨addrFamily, ifaddrs, []⟩

namespace IfaceIterator

def prepareNext (it : IfaceIterator) : Bool × IfaceIterator :=
  let iface :=
    match it.iface with
    | _ :: next => next
    | [] => it.ifaddrs
  (!iface.isEmpty, { it with iface })

/-- The test in the loop of `net_iface_iterator_has_next`. -/
def selects (addrFamily : UInt16) (ifa : Ifaddrs) : Bool :=
  addrFamily = afUnspec || ifa.addr.any (·.family = addrFamily)

/-- The loop from an entry on, where `prepare_next` goes to the entry behind. -/
def seek (addrFamily : UInt16) : List Ifaddrs → List Ifaddrs
  | [] => []
  | ifa :: next => if selects addrFamily ifa then ifa :: next else seek addrFamily next

def hasNext (it : IfaceIterator) : Bool × IfaceIterator :=
  let (_, it) := it.prepareNext
  let iface := seek it.addrFamily it.iface
  (!iface.isEmpty, { it with iface })

/-- The interface that `net_iface_iterator_get_next` returns, if there is one behind its pointer. -/
def getNext (it : IfaceIterator) : Option Ifaddrs := it.iface.head?

/-- The loop as the source has it. -/
theorem hasNext_eq (it : IfaceIterator) :
    it.hasNext =
      if it.prepareNext.1 then
        if it.prepareNext.2.iface.head?.any (selects it.addrFamily) then (true, it.prepareNext.2)
        else it.prepareNext.2.hasNext
      else (false, it.prepareNext.2) := by
  obtain ⟨start, hstart⟩ : ∃ start, it.prepareNext = (!start.isEmpty, { it with iface := start }) := ⟨_, rfl⟩
  unfold hasNext
  rw [hstart]
  cases start with
  | nil => rfl
  | cons ifa next =>
    by_cases hselects : selects it.addrFamily ifa = true
    · simp [seek, hselects]
    · simp [seek, hselects, prepareNext]

/-- The interfaces of the family that are to come before the iterator finds no other. -/
def ahead (it : IfaceIterator) : List Ifaddrs := it.prepareNext.2.iface.filter (selects it.addrFamily)

theorem seek_spec (addrFamily : UInt16) (ifaddrs : List Ifaddrs) :
    (seek addrFamily ifaddrs).head? = (ifaddrs.filter (selects addrFamily)).head? ∧
      (seek addrFamily ifaddrs).tail.filter (selects addrFamily) = (ifaddrs.filter (selects addrFamily)).tail := by
  induction ifaddrs with
  | nil => exact ⟨rfl, rfl⟩
  | cons ifa next ih =>
    unfold seek
    by_cases hselects : selects addrFamily ifa = true
    · rw [if_pos hselects, List.filter_cons_of_pos hselects]
      exact ⟨rfl, rfl⟩
    · rw [if_neg hselects, List.filter_cons_of_neg hselects]
      exact ih

/-- A call goes to the first interface ahead; behind the last one it says so, and the next call starts over. -/
theorem hasNext_spec (it : IfaceIterator) :
    it.hasNext.2.getNext = it.ahead.head? ∧ it.hasNext.1 = it.ahead.head?.isSome ∧
      it.hasNext.2.addrFamily = it.addrFamily ∧ it.hasNext.2.ifaddrs = it.ifaddrs ∧
      it.hasNext.2.ahead = if it.ahead = [] then it.ifaddrs.filter (selects it.addrFamily) else it.ahead.tail := by
  obtain ⟨start, hstart⟩ : ∃ start, it.prepareNext = (!start.isEmpty, { it with iface := start }) := ⟨_, rfl⟩
  have hahead : it.ahead = start.filter (selects it.addrFamily) := by
    unfold ahead
    rw [hstart]
  have hnext : it.hasNext = (!(seek it.addrFamily start).isEmpty, { it with iface := seek it.addrFamily start }) := by
    unfold hasNext
    rw [hstart]
  obtain ⟨hhead, htail⟩ := seek_spec it.addrFamily start
  rw [← hahead] at hhead htail
  rw [hnext]
  refine ⟨hhead, ?_, rfl, rfl, ?_⟩
  · rw [← hhead]
    cases seek it.addrFamily start <;> rfl
  · cases hseek : seek it.addrFamily start with
    | nil =>
      rw [hseek] at hhead
      rw [if_pos (List.head?_eq_none_iff.1 hhead.symm)]
      rfl
    | cons ifa next =>
      rw [hseek] at hhead htail
      have hne : it.ahead ≠ [] := by
        intro hnil
        rw [hnil] at hhead
        cases hhead
      rw [if_neg hne, ← htail]
      rfl

/-- The iterator behind some calls of `net_iface_iterator_has_next`. -/
def called (it : IfaceIterator) : Nat → IfaceIterator
  | 0 => it
  | k + 1 => (it.called k).hasNext.2

theorem called_spec (ifaddrs : List Ifaddrs) (addrFamily : UInt16) (k : Nat) :
    let chosen := ifaddrs.filter (selects addrFamily)
    let it := (netIfaceIteratorNew ifaddrs addrFamily).called k
    it.addrFamily = addrFamily ∧ it.ifaddrs = ifaddrs ∧ it.ahead = chosen.drop (k % (chosen.length + 1)) := by
  intro chosen it
  induction k with
  | zero => exact ⟨rfl, rfl, rfl⟩
  | succ k ih =>
    obtain ⟨hfamily, hifaddrs, hahead⟩ := ih
    obtain ⟨-, -, hfamily', hifaddrs', hahead'⟩ := hasNext_spec ((netIfaceIteratorNew ifaddrs addrFamily).called k)
    refine ⟨hfamily'.trans hfamily, hifaddrs'.trans hifaddrs, hahead'.trans ?_⟩
    rw [hahead, hfamily, hifaddrs]
    have hlt : k % (chosen.length + 1) < chosen.length + 1 := Nat.mod_lt _ (Nat.succ_pos _)
    rcases Nat.lt_or_eq_of_le (Nat.le_of_lt_succ hlt) with hless | hlast
    · have hne : chosen.drop (k % (chosen.length + 1)) ≠ [] := by
        rw [Ne, List.drop_eq_nil_iff]
        omega
      have hmod : (k + 1) % (chosen.length + 1) = k % (chosen.length + 1) + 1 := by
        rw [Nat.add_mod, Nat.mod_eq_of_lt (show 1 < chosen.length + 1 by omega), Nat.mod_eq_of_lt (by omega)]
      rw [if_neg hne, hmod, List.tail_drop]
    · have hnil : chosen.drop (k % (chosen.length + 1)) = [] := by
        rw [List.drop_eq_nil_iff]
        omega
      have hmod : (k + 1) % (chosen.length + 1) = 0 := Nat.succ_mod_succ_eq_zero_iff.2 hlast
      rw [if_pos hnil, hmod]
      rfl

end IfaceIterator

open IfaceIterator

/-- A new iterator visits exactly the interfaces of its family, in the order of the list and each once, then says
that there is none, and starts over: so it does however often it is called. -/
theorem iterator_visits (ifaddrs : List Ifaddrs) (addrFamily : UInt16) (k : Nat) :
    let chosen := ifaddrs.filter (selects addrFamily)
    let call := ((netIfaceIteratorNew ifaddrs addrFamily).called k).hasNext
    call.1 = decide (k % (chosen.length + 1) < chosen.length) ∧
      call.2.getNext = chosen[k % (chosen.length + 1)]? := by
  intro chosen call
  obtain ⟨-, -, hahead⟩ := called_spec ifaddrs addrFamily k
  obtain ⟨hnext, hmore, -⟩ := hasNext_spec ((netIfaceIteratorNew ifaddrs addrFamily).called k)
  rw [hahead, List.head?_drop] at hnext hmore
  refine ⟨hmore.trans ?_, hnext⟩
  rw [Bool.eq_iff_iff, decide_eq_true_iff]
  exact Option.isSome_iff_ne_none.trans (by simp [chosen])

/-! ## The search -/

/-- `net_addr_match` on the pointers of an interface; `none` where it reads behind NULL. -/
def reaches (dest : SockAddr) (ifa : Ifaddrs) : Option Bool :=
  match ifa.addr with
  | none => none
  | some sa => if sa.family = dest.family then ifa.netmask.map fun mask => netAddrMatch sa dest mask else some false

/-- The loop of `net_addr_find_matching_iface`, at most `rounds` rounds: what it returns, and the address that it has
written. -/
def findLoop (dest : SockAddr) : (rounds : Nat) → IfaceIterator → Option (Int × Option SockAddr)
  | 0, _ => none
  | rounds + 1, it =>
    let (more, it) := it.hasNext
    if more then
      match it.getNext with
      | none => none
      | some ifa =>
        if !netIfaceIsUp ifa || !netIfaceIsRunning ifa then findLoop dest rounds it
        else
          match reaches dest ifa with
          | none => none
          | some true => some (1, ifa.addr.bind netAddrCopy)
          | some false => findLoop dest rounds it
    else some (0, none)

/-- `none` where it crashes; without a list of interfaces it fails. -/
def netAddrFindMatchingIface (ifaddrs : Option (List Ifaddrs)) (dest : SockAddr) : Option (Int × Option SockAddr) :=
  match ifaddrs with
  | none => some (-1, none)
  | some ifaddrs => findLoop dest (ifaddrs.length + 1) (netIfaceIteratorNew ifaddrs dest.family)

/-- The interfaces that are looked at. -/
def usable (ifa : Ifaddrs) : Bool := netIfaceIsUp ifa && netIfaceIsRunning ifa

theorem copy_of_reaches {dest : SockAddr} {ifa : Ifaddrs} (h : reaches dest ifa = some true) :
    ifa.addr.bind netAddrCopy = ifa.addr := by
  unfold reaches at h
  cases haddr : ifa.addr with
  | none => rfl
  | some sa =>
    rw [haddr] at h
    cases sa with
    | inet port addr => rfl
    | inet6 port flowinfo addr scope => rfl
    | other family hother =>
      simp only at h
      split at h
      · obtain ⟨mask, -, hmatch⟩ := Option.map_eq_some_iff.1 h
        simp [netAddrMatch] at hmatch
      · cases h

/-- What the loop comes to. -/
def found (dest : SockAddr) (ifaddrs : List Ifaddrs) : Option (Int × Option SockAddr) :=
  match (ifaddrs.filter usable).find? fun ifa => reaches dest ifa ≠ some false with
  | none => some (0, none)
  | some ifa => (reaches dest ifa).map fun _ => (1, ifa.addr)

theorem findLoop_eq (dest : SockAddr) : ∀ (rounds : Nat) {it : IfaceIterator}, it.ahead.length < rounds →
    findLoop dest rounds it = found dest it.ahead
  | rounds + 1, it, h => by
    obtain ⟨hnext, hmore, -, -, hahead⟩ := hasNext_spec it
    unfold findLoop
    simp only [hnext, hmore]
    cases hit : it.ahead with
    | nil => rfl
    | cons ifa next =>
      rw [hit] at h hahead
      rw [if_neg (List.cons_ne_nil _ _), List.tail_cons] at hahead
      have hrest := @findLoop_eq dest rounds it.hasNext.2 (by rw [hahead]; simpa using h)
      rw [hahead] at hrest
      simp only [List.head?_cons, Option.isSome_some, if_true, hrest]
      unfold found
      by_cases husable : usable ifa = true
      · have hused : (!netIfaceIsUp ifa || !netIfaceIsRunning ifa) = false := by
          rw [← Bool.not_and, Bool.not_eq_false']
          exact husable
        rw [List.filter_cons_of_pos husable, List.find?_cons, hused]
        rcases hreaches : reaches dest ifa with _ | _ | _
        · simp [hreaches]
        · simp
        · simp [hreaches, copy_of_reaches hreaches]
      · have hskipped : (!netIfaceIsUp ifa || !netIfaceIsRunning ifa) = true := by
          rw [← Bool.not_and, Bool.not_eq_true']
          exact eq_false_of_ne_true husable
        rw [List.filter_cons_of_neg husable, hskipped]
        rfl

/-- The interface at which the loop ends. -/
theorem find_reaches_iff (dest : SockAddr) (candidates : List Ifaddrs) (ifa : Ifaddrs) :
    candidates.find? (fun ifa => reaches dest ifa ≠ some false) = some ifa ↔
      ∃ before after, candidates = before ++ ifa :: after ∧ (∀ other ∈ before, reaches dest other = some false) ∧
        reaches dest ifa ≠ some false := by
  rw [List.find?_eq_some_iff_append]
  constructor
  · rintro ⟨hifa, before, after, hsplit, hbefore⟩
    exact ⟨before, after, hsplit, fun other hother => by simpa using hbefore other hother, by simpa using hifa⟩
  · rintro ⟨before, after, hsplit, hbefore, hifa⟩
    exact ⟨by simpa using hifa, before, after, hsplit, fun other hother => by simpa using hbefore other hother⟩

/-- The same with what else is said of that interface. -/
theorem exists_first_iff (dest : SockAddr) (candidates : List Ifaddrs) {P : Ifaddrs → Prop}
    (h : ∀ ifa, P ifa → reaches dest ifa ≠ some false) :
    (∃ before ifa after, candidates = before ++ ifa :: after ∧ (∀ other ∈ before, reaches dest other = some false) ∧ P ifa) ↔
      ∃ ifa, candidates.find? (fun ifa => reaches dest ifa ≠ some false) = some ifa ∧ P ifa := by
  constructor
  · rintro ⟨before, ifa, after, hsplit, hbefore, hifa⟩
    have hfirst := (find_reaches_iff dest candidates ifa).2 ⟨before, after, hsplit, hbefore, h ifa hifa⟩
    exact ⟨ifa, hfirst, hifa⟩
  · rintro ⟨ifa, hfirst, hifa⟩
    obtain ⟨before, after, hsplit, hbefore, -⟩ := (find_reaches_iff dest candidates ifa).1 hfirst
    exact ⟨before, ifa, after, hsplit, hbefore, hifa⟩

/-- The answers of the loop. -/
theorem found_spec (dest : SockAddr) (ifaddrs : List Ifaddrs) :
    let first := (ifaddrs.filter usable).find? fun ifa => reaches dest ifa ≠ some false
    (found dest ifaddrs = some (0, none) ↔ first = none) ∧
      (∀ sa, found dest ifaddrs = some (1, some sa) ↔
        ∃ ifa, first = some ifa ∧ reaches dest ifa = some true ∧ ifa.addr = some sa) ∧
      (found dest ifaddrs = none ↔ ∃ ifa, first = some ifa ∧ reaches dest ifa = none) := by
  intro first
  unfold found
  cases hfirst : (ifaddrs.filter usable).find? fun ifa => reaches dest ifa ≠ some false with
  | none => simp [first, hfirst]
  | some ifa =>
    have hifa : reaches dest ifa ≠ some false := by simpa using List.find?_some hfirst
    rcases hreaches : reaches dest ifa with _ | _ | _
    · simp [first, hfirst, hreaches]
    · exact absurd hreaches hifa
    · simp [first, hfirst, hreaches]

/-- The search over the list of `getifaddrs`, among the interfaces of the destination's family that are up and running: it
finds none exactly if none of them reaches the destination, it writes the address of the first one that does, and it
crashes exactly if it comes to one before that has no address or, for an address of the family, no mask. -/
theorem netAddrFindMatchingIface_iff (ifaddrs : List Ifaddrs) (dest : SockAddr) :
    let candidates := (ifaddrs.filter (selects dest.family)).filter usable
    (netAddrFindMatchingIface (some ifaddrs) dest = some (0, none) ↔
        ∀ ifa ∈ candidates, reaches dest ifa = some false) ∧
      (∀ sa, netAddrFindMatchingIface (some ifaddrs) dest = some (1, some sa) ↔
        ∃ before ifa after, candidates = before ++ ifa :: after ∧ (∀ other ∈ before, reaches dest other = some false) ∧
          reaches dest ifa = some true ∧ ifa.addr = some sa) ∧
      (netAddrFindMatchingIface (some ifaddrs) dest = none ↔
        ∃ before ifa after, candidates = before ++ ifa :: after ∧ (∀ other ∈ before, reaches dest other = some false) ∧
          reaches dest ifa = none) := by
  intro candidates
  have hfind : netAddrFindMatchingIface (some ifaddrs) dest = found dest (ifaddrs.filter (selects dest.family)) := by
    refine findLoop_eq dest _ (Nat.lt_succ_of_le ?_)
    exact List.length_filter_le ..
  obtain ⟨hnone, hone, hcrash⟩ := found_spec dest (ifaddrs.filter (selects dest.family))
  rw [hfind]
  refine ⟨hnone.trans ?_, fun sa => (hone sa).trans ?_, hcrash.trans ?_⟩
  · rw [List.find?_eq_none]
    simp [candidates]
  · refine (exists_first_iff dest candidates ?_).symm
    rintro ifa ⟨hreaches, -⟩
    rw [hreaches]
    decide
  · refine (exists_first_iff dest candidates ?_).symm
    rintro ifa hreaches
    rw [hreaches]
    decide

end CMx.Iface
