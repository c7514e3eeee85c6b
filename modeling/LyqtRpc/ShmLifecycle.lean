import LyqtRpc.Lib.AssocTable
import LyqtRpc.Lib.StepRun
import LyqtRpc.Fields
import Mathlib.Data.Fintype.EquivFin

/-!
`create`, `open` and `destroy` of one `ShmChannel`, with the names of shared
memory segments, the mappings of the process, and other processes in between.
What a system call answers, and what a control block shows, is given with a call.
-/

set_option autoImplicit false

namespace LyqtRpc

open StepRun

def SHM_CTRL_SIZE : UInt64 := 4096
def SHM_MAGIC : UInt32 := 0x4C435A53
def SHM_VERSION : UInt32 := 1

/-- What `_addr` holds. -/
inductive MapAddress where
  | nullptr
  | MAP_FAILED
  | mapped (addr : Nat)
  deriving DecidableEq, Repr

/-- A control block as it is read. -/
structure ControlSeen where
  ready : Bool
  magic : UInt32
  version : UInt32
  creatorPid : Int32

/-- What `reclaim_stale_segment` meets; `creatorGone`: `kill` says ESRCH. -/
structure ReclaimCalls where
  shmOpen : Bool
  fstat : Option UInt64
  mmap : Bool
  seen : ControlSeen
  creatorGone : Bool
  shmUnlink : Bool

/-- What `create` meets; a descriptor, an address, or the call fails. -/
structure CreateCalls where
  shmOpen : Option Nat
  reclaim : ReclaimCalls
  shmOpenAgain : Option Nat
  ftruncate : Bool
  mmap : Option Nat

/-- What `open` meets; `seen` is the control block when it stops waiting. -/
structure OpenCalls where
  shmOpen : Option Nat
  fstat : Option UInt64
  mmap : Option Nat
  seen : ControlSeen

/-- Which call of the object succeeded last. -/
inductive ShmRole where
  | closed | created | opened
  deriving DecidableEq, Repr

/-- The fields of the object, the names of segments, the mappings the object has
made, by address, and two histories that nothing reads: `owned` are the segments
that the object created and has not destroyed. -/
structure ShmProcess where
  addr : MapAddress := .nullptr
  ctrl : Option Nat := none
  shmFd : Option Nat := none
  totalSize : UInt64 := 0
  isCreator : Bool := false
  name : Bytes := []
  directory : AList (fun _ : Bytes => Nat) := ∅
  nextSegment : Nat := 0
  mappings : AList (fun _ : Nat => Nat × UInt64) := ∅
  role : ShmRole := .closed
  owned : List Nat := []

/-- What a `destroy` did: the address whose `ready` it cleared, what it unmapped,
the descriptor it closed, the segment it unlinked. -/
structure Destruction where
  cleared : Option Nat
  unmapped : Option (MapAddress × UInt64)
  closed : Option Nat
  unlinked : Option Nat

namespace ReclaimCalls

/-- The creator is known to be dead, or the layout is an old one. -/
def stale (c : ReclaimCalls) : Bool :=
  if 0 < c.seen.creatorPid then c.creatorGone
  else c.seen.ready && (c.seen.magic ≠ SHM_MAGIC || c.seen.version ≠ SHM_VERSION)

/-- `reclaim_stale_segment` -/
def unlinks (c : ReclaimCalls) : Bool :=
  c.shmOpen && c.fstat.any (fun size => SHM_CTRL_SIZE ≤ size) && c.mmap && c.stale && c.shmUnlink

end ReclaimCalls

namespace ShmProcess

def isOpen (s : ShmProcess) : Bool := s.addr ≠ .nullptr

/-- A new segment under a free name. -/
def link (s : ShmProcess) (name : Bytes) : ShmProcess :=
  { s with
    directory := s.directory.insert name s.nextSegment
    nextSegment := s.nextSegment + 1 }

def unlink (s : ShmProcess) (name : Bytes) : ShmProcess :=
  { s with directory := s.directory.erase name }

/-- Whether `create` gets a segment of its own, and its descriptor. -/
def made (s : ShmProcess) (name : Bytes) (c : CreateCalls) : Option Nat :=
  match c.shmOpen with
  | none => none
  | some fd =>
    if (s.directory.lookup name).isNone then some fd
    else if c.reclaim.unlinks then c.shmOpenAgain
    else none

/-- What of a stale segment is left before that. -/
def reclaimed (s : ShmProcess) (name : Bytes) (c : CreateCalls) : ShmProcess :=
  if c.shmOpen.isSome && (s.directory.lookup name).isSome && c.reclaim.unlinks then s.unlink name
  else s

def create (s : ShmProcess) (name : Bytes) (req_buf_size resp_buf_size : UInt64)
    (c : CreateCalls) : Bool × ShmProcess :=
  match s.made name c with
  | none => (false, s.reclaimed name c)
  | some fd =>
    let segment := s.nextSegment
    let s := (s.reclaimed name c).link name
    let s := { s with totalSize := SHM_CTRL_SIZE + req_buf_size + resp_buf_size }
    if c.ftruncate then
      match c.mmap with
      | none => (false, { s with addr := .MAP_FAILED }.unlink name)
      | some a =>
        (true, { s with
          addr := .mapped a
          ctrl := some a
          shmFd := some fd
          isCreator := true
          name
          mappings := s.mappings.insert a (segment, s.totalSize)
          role := .created
          owned := segment :: s.owned })
    else (false, s.unlink name)

/-- `open` -/
def openChannel (s : ShmProcess) (name : Bytes) (c : OpenCalls) : Bool × ShmProcess :=
  if s.isOpen then (false, s)
  else
    match c.shmOpen, s.directory.lookup name with
    | some fd, some segment =>
      match c.fstat with
      | none => (false, s)
      | some size =>
        let s := { s with totalSize := size }
        match c.mmap with
        | none => (false, { s with addr := .MAP_FAILED })
        | some a =>
          if c.seen.ready && c.seen.magic = SHM_MAGIC && c.seen.version = SHM_VERSION then
            (true, { s with
              addr := .mapped a
              ctrl := some a
              shmFd := some fd
              name
              mappings := s.mappings.insert a (segment, size)
              role := .opened })
          -- not ready in time, or another layout: unmapped again
          else (false, { s with ctrl := none })
    | _, _ => (false, s)

/-- The segment that `_ctrl` points into. -/
def control (s : ShmProcess) : Option Nat :=
  s.ctrl.bind (fun a => (s.mappings.lookup a).map (·.1))

/-- Also what the destructor does. -/
def destroy (s : ShmProcess) : Destruction × ShmProcess :=
  let unlinks := s.isCreator && s.name ≠ []
  let unlinked := if unlinks then s.directory.lookup s.name else none
  let cleared := if s.isCreator then s.control else none
  ({ cleared := if s.isCreator then s.ctrl else none
     unmapped := if s.isOpen then some (s.addr, s.totalSize) else none
     closed := s.shmFd
     unlinked },
    { s with
      addr := .nullptr
      ctrl := none
      shmFd := none
      directory := if unlinks then s.directory.erase s.name else s.directory
      mappings :=
        match s.addr with
        | .mapped a => s.mappings.erase a
        | _ => s.mappings
      role := .closed
      owned := s.owned.filter (fun segment => some segment ≠ cleared ∧ some segment ≠ unlinked) })

end ShmProcess

inductive ShmAct where
  | create (name : Bytes) (req_buf_size resp_buf_size : UInt64) (c : CreateCalls)
  | openChannel (name : Bytes) (c : OpenCalls)
  | destroy
  /-- Another process creates a segment, or unlinks one that is not the object's. -/
  | otherCreate (name : Bytes)
  | otherUnlink (name : Bytes)

/-- A new mapping is where no other one is. A segment of the object shows a
living creator to `reclaim_stale_segment`. -/
def shmStep (s : ShmProcess) : ShmAct → Option ShmProcess
  | .create name req_buf_size resp_buf_size c =>
    if c.mmap.any (fun a => (s.mappings.lookup a).isSome) then none
    else if (s.directory.lookup name).any (fun segment => segment ∈ s.owned) && c.reclaim.stale then
      none
    else some (s.create name req_buf_size resp_buf_size c).2
  | .openChannel name c =>
    if c.mmap.any (fun a => (s.mappings.lookup a).isSome) then none
    else some (s.openChannel name c).2
  | .destroy => some s.destroy.2
  | .otherCreate name => if (s.directory.lookup name).isNone then some (s.link name) else none
  | .otherUnlink name =>
    if (s.directory.lookup name).any (fun segment => segment ∉ s.owned) then some (s.unlink name)
    else none

/-- With segments that others may yet create, an `open` may succeed. -/
def ShmProcess.MayOpen (s : ShmProcess) : Prop :=
  ∃ others t name c, (∀ a ∈ others, ∃ name, a = ShmAct.otherCreate name) ∧
    exec shmStep s others = some t ∧ (shmStep t (.openChannel name c)).isSome ∧
    (t.openChannel name c).1 = true

/-- After a failure. -/
structure ShmProcess.Retryable (s : ShmProcess) : Prop where
  closed : s.isOpen = false
  again : s.MayOpen

/-- Unmapped is what was mapped; cleared and unlinked are segments of its own. -/
structure Destruction.Rightful (s : ShmProcess) (d : Destruction) : Prop where
  unmapped : ∀ m size, d.unmapped = some (m, size) →
    ∃ a, m = .mapped a ∧ (s.mappings.lookup a).isSome
  cleared : ∀ a, d.cleared = some a →
    ∃ segment size, s.mappings.lookup a = some (segment, size) ∧ segment ∈ s.owned
  unlinked : ∀ segment, d.unlinked = some segment → segment ∈ s.owned

def ChannelLawful (s : ShmProcess) : ShmAct → Prop
  | .create name req_buf_size resp_buf_size c =>
    (s.create name req_buf_size resp_buf_size c).1 = false →
      (s.create name req_buf_size resp_buf_size c).2.Retryable
  | .openChannel name c =>
    (s.openChannel name c).1 = false → (s.openChannel name c).2.Retryable
  | .destroy => s.destroy.1.Rightful s
  | .otherCreate _ | .otherUnlink _ => True

/-- `create` and `open` do not come to an `mmap` that fails; an open channel is
not opened again, and a `create` on one succeeds; an object that was a creator is
not destroyed while closed, with a segment under its last name, nor while it has
opened a segment that is not its own. -/
def ChannelFits (s : ShmProcess) : ShmAct → Prop
  | .create name _ _ c =>
    if (s.made name c).isSome ∧ c.ftruncate then c.mmap.isSome else s.isOpen = false
  | .openChannel name c =>
    s.isOpen = false ∧ (c.shmOpen.isSome → (s.directory.lookup name).isSome → c.fstat.isSome →
      c.mmap.isSome)
  | .destroy => s.isCreator = true →
    match s.role with
    | .closed => s.name = [] ∨ s.directory.lookup s.name = none
    | .created => True
    | .opened => ∃ segment ∈ s.owned, s.control = some segment
  | .otherCreate _ | .otherUnlink _ => True

/-- The names of segments, and those the object owns among them. -/
structure DirectoryInv (s : ShmProcess) : Prop where
  one : ∀ n m segment, s.directory.lookup n = some segment →
    s.directory.lookup m = some segment → n = m
  fresh : ∀ n segment, s.directory.lookup n = some segment → segment < s.nextSegment
  linked : ∀ segment ∈ s.owned, ∃ n, s.directory.lookup n = some segment

structure ChannelInv (s : ShmProcess) : Prop extends DirectoryInv s where
  valid : s.addr ≠ .MAP_FAILED
  closed : s.role = .closed ↔ s.addr = .nullptr
  ctrl : s.addr = .nullptr → s.ctrl = none
  /-- What is mapped, and named. -/
  mapped : ∀ a, s.addr = .mapped a → s.ctrl = some a ∧
    ∃ segment size, s.mappings.lookup a = some (segment, size) ∧
      (s.role = .created → segment ∈ s.owned) ∧
      (segment ∈ s.owned → s.directory.lookup s.name = some segment)
  /-- The name of a destroyed segment is free, or another's. -/
  gone : s.role = .closed → s.isCreator = true → s.name ≠ [] →
    ∀ segment, s.directory.lookup s.name = some segment → segment ∉ s.owned

section Lifecycle
variable {s t : ShmProcess} {name : Bytes}

theorem ShmProcess.isOpen_eq_false : s.isOpen = false ↔ s.addr = .nullptr := by
  simp [isOpen]

theorem ShmProcess.mayOpen (h : s.isOpen = false) : s.MayOpen := by
  obtain ⟨a, ha⟩ := Infinite.exists_notMem_finset s.mappings.keys.toFinset
  have hfree : s.mappings.lookup a = none := by
    simpa [AList.lookup_eq_none, ← AList.mem_keys] using ha
  let c : OpenCalls := ⟨some 3, some SHM_CTRL_SIZE, some a, ⟨true, SHM_MAGIC, SHM_VERSION, 1⟩⟩
  cases hname : s.directory.lookup [] with
  | some segment =>
    refine ⟨[], s, [], c, by simp, rfl, ?_, ?_⟩
    · simp [shmStep, c, hfree]
    · simp [openChannel, h, hname, c]
  | none =>
    have hstep : shmStep s (.otherCreate []) = some (s.link []) := by simp [shmStep, hname]
    have hopen : (s.link []).isOpen = false := h
    have hlink : (s.link []).directory.lookup [] = some s.nextSegment := by simp [link]
    refine ⟨[.otherCreate []], s.link [], [], c, by simp, by rw [exec_cons hstep]; rfl, ?_, ?_⟩
    · simp [shmStep, c, link, hfree]
    · simp [openChannel, hopen, hlink, c]

theorem ShmProcess.retryable_iff : s.Retryable ↔ s.isOpen = false :=
  ⟨fun h => h.closed, fun h => ⟨h, s.mayOpen h⟩⟩

theorem DirectoryInv.notOwned (h : DirectoryInv s) : s.nextSegment ∉ s.owned := by
  intro hown
  obtain ⟨n, hn⟩ := h.linked _ hown
  have := h.fresh n _ hn
  omega

theorem DirectoryInv.link (h : DirectoryInv s) (hfree : s.directory.lookup name = none) :
    DirectoryInv (s.link name) where
  one n m segment hn hm := by
    simp only [ShmProcess.link, AssocTable.lookup_insert_ite] at hn hm
    have hfresh := h.fresh
    split at hn <;> split at hm
    · simp_all
    · have := hfresh m segment hm
      simp at hn
      omega
    · have := hfresh n segment hn
      simp at hm
      omega
    · exact h.one n m segment hn hm
  fresh n segment hn := by
    simp only [ShmProcess.link, AssocTable.lookup_insert_ite] at hn ⊢
    split at hn
    · simp at hn
      omega
    · have := h.fresh n segment hn
      omega
  linked segment hown := by
    obtain ⟨n, hn⟩ := h.linked segment hown
    have hne : n ≠ name := by
      rintro rfl
      simp [hfree] at hn
    exact ⟨n, by simpa [ShmProcess.link, AssocTable.lookup_insert_ite, hne] using hn⟩

/-- A name is taken out whose segment is not the object's. -/
theorem DirectoryInv.unlink (h : DirectoryInv s)
    (hname : ∀ segment, s.directory.lookup name = some segment → segment ∉ s.owned) :
    DirectoryInv (s.unlink name) where
  one n m segment hn hm := by
    simp only [ShmProcess.unlink, AssocTable.lookup_erase_ite] at hn hm
    split at hn
    · simp at hn
    · split at hm
      · simp at hm
      · exact h.one n m segment hn hm
  fresh n segment hn := by
    simp only [ShmProcess.unlink, AssocTable.lookup_erase_ite] at hn
    split at hn
    · simp at hn
    · exact h.fresh n segment hn
  linked segment hown := by
    obtain ⟨n, hn⟩ := h.linked segment hown
    have hne : n ≠ name := fun heq => hname segment (heq ▸ hn) hown
    exact ⟨n, by simpa [ShmProcess.unlink, AssocTable.lookup_erase_ite, hne] using hn⟩

theorem ChannelInv.init : ChannelInv {} where
  one n m segment hn hm := by simp at hn
  fresh n segment hn := by simp at hn
  linked segment hown := by simp at hown
  valid := by simp
  closed := by simp
  ctrl := by simp
  mapped a ha := by simp at ha
  gone hclosed hcreator := by simp at hcreator

theorem ChannelInv.resize (h : ChannelInv s) (size : UInt64) :
    ChannelInv { s with totalSize := size } :=
  { h with }

theorem ChannelInv.link (h : ChannelInv s) (hfree : s.directory.lookup name = none) :
    ChannelInv (s.link name) where
  toDirectoryInv := h.toDirectoryInv.link hfree
  valid := h.valid
  closed := h.closed
  ctrl := h.ctrl
  mapped a ha := by
    obtain ⟨hctrl, segment, size, hmap, hcreated, hlook⟩ := h.mapped a ha
    refine ⟨hctrl, segment, size, hmap, hcreated, fun hown => ?_⟩
    have hne : s.name ≠ name := by
      intro heq
      have hlook := hlook hown
      rw [heq, hfree] at hlook
      simp at hlook
    simpa [ShmProcess.link, AssocTable.lookup_insert_ite, hne] using hlook hown
  gone hclosed hcreator hname segment hlook := by
    simp only [ShmProcess.link, AssocTable.lookup_insert_ite] at hlook
    split at hlook
    · simp only [Option.some.injEq] at hlook
      exact hlook ▸ h.notOwned
    · exact h.gone hclosed hcreator hname segment hlook

theorem ChannelInv.unlink (h : ChannelInv s)
    (hname : ∀ segment, s.directory.lookup name = some segment → segment ∉ s.owned) :
    ChannelInv (s.unlink name) where
  toDirectoryInv := h.toDirectoryInv.unlink hname
  valid := h.valid
  closed := h.closed
  ctrl := h.ctrl
  mapped a ha := by
    obtain ⟨hctrl, segment, size, hmap, hcreated, hlook⟩ := h.mapped a ha
    refine ⟨hctrl, segment, size, hmap, hcreated, fun hown => ?_⟩
    have hne : s.name ≠ name := fun heq => hname segment (heq ▸ hlook hown) hown
    simpa [ShmProcess.unlink, AssocTable.lookup_erase_ite, hne] using hlook hown
  gone hclosed hcreator hne segment hlook := by
    simp only [ShmProcess.unlink, AssocTable.lookup_erase_ite] at hlook
    split at hlook
    · simp at hlook
    · exact h.gone hclosed hcreator hne segment hlook

/-- A segment of the object is not stale, so it is not reclaimed. -/
theorem ChannelInv.reclaimed {c : CreateCalls} (h : ChannelInv s)
    (hlive : ∀ segment, s.directory.lookup name = some segment → segment ∈ s.owned →
      c.reclaim.stale = false) :
    ChannelInv (s.reclaimed name c) := by
  unfold ShmProcess.reclaimed
  split
  · rename_i hcond
    apply h.unlink
    intro segment hlook hown
    simp [ReclaimCalls.unlinks, hlive segment hlook hown] at hcond
  · exact h

theorem ShmProcess.reclaimed_free {c : CreateCalls} {fd : Nat} (h : s.made name c = some fd) :
    (s.reclaimed name c).directory.lookup name = none := by
  unfold made at h
  unfold reclaimed
  cases hopen : c.shmOpen with
  | none => simp [hopen] at h
  | some _ =>
    cases hname : s.directory.lookup name with
    | none => simp [hname]
    | some segment =>
      cases hun : c.reclaim.unlinks with
      | false => simp [hopen, hname, hun] at h
      | true => simp [unlink]

@[simp] theorem ShmProcess.reclaimed_nextSegment {c : CreateCalls} :
    (s.reclaimed name c).nextSegment = s.nextSegment := by
  unfold reclaimed
  split <;> rfl

@[simp] theorem ShmProcess.reclaimed_addr {c : CreateCalls} :
    (s.reclaimed name c).addr = s.addr := by
  unfold reclaimed
  split <;> rfl

variable {req_buf_size resp_buf_size size : UInt64} {segment a fd : Nat}

theorem ChannelInv.created (h : ChannelInv s)
    (hlook : s.directory.lookup name = some segment) :
    ChannelInv { s with
      addr := .mapped a
      ctrl := some a
      shmFd := some fd
      isCreator := true
      name
      mappings := s.mappings.insert a (segment, size)
      role := .created
      owned := segment :: s.owned } where
  one := h.one
  fresh := h.fresh
  linked other hown := by
    simp only [List.mem_cons] at hown
    cases hown with
    | inl heq => exact ⟨name, heq ▸ hlook⟩
    | inr hold => exact h.linked other hold
  valid := by simp
  closed := by simp
  ctrl := by simp
  mapped b hb := by
    simp only [MapAddress.mapped.injEq] at hb
    subst hb
    exact ⟨rfl, segment, size, by simp, fun _ => by simp, fun _ => hlook⟩
  gone := by simp

theorem ChannelInv.opened (h : ChannelInv s)
    (hlook : s.directory.lookup name = some segment) :
    ChannelInv { s with
      addr := .mapped a
      ctrl := some a
      shmFd := some fd
      name
      mappings := s.mappings.insert a (segment, size)
      role := .opened } where
  one := h.one
  fresh := h.fresh
  linked := h.linked
  valid := by simp
  closed := by simp
  ctrl := by simp
  mapped b hb := by
    simp only [MapAddress.mapped.injEq] at hb
    subst hb
    exact ⟨rfl, segment, size, by simp, by simp, fun _ => hlook⟩
  gone := by simp

theorem ChannelInv.create {c : CreateCalls} (h : ChannelInv s)
    (hstep : shmStep s (.create name req_buf_size resp_buf_size c) = some t)
    (hlaw : ChannelLawful s (.create name req_buf_size resp_buf_size c)) : ChannelInv t := by
  simp only [shmStep] at hstep
  split at hstep
  · simp at hstep
  split at hstep
  · simp at hstep
  rename_i _ hlive
  simp only [Option.some.injEq] at hstep
  simp only [ChannelLawful, ShmProcess.retryable_iff] at hlaw
  unfold ShmProcess.create at hstep hlaw
  have hre : ChannelInv (s.reclaimed name c) := by
    apply h.reclaimed
    intro segment hlook hown
    simpa [hlook, hown] using hlive
  cases hmade : s.made name c with
  | none =>
    simp only [hmade] at hstep
    exact hstep ▸ hre
  | some fd =>
    have hlink := (hre.link (ShmProcess.reclaimed_free hmade)).resize
      (SHM_CTRL_SIZE + req_buf_size + resp_buf_size)
    have hlook : ((s.reclaimed name c).link name).directory.lookup name = some s.nextSegment := by
      simp [ShmProcess.link]
    simp only [hmade] at hstep hlaw
    cases htrunc : c.ftruncate with
    | true =>
      simp only [htrunc, if_true] at hstep hlaw
      cases hmmap : c.mmap with
      | none => simp [hmmap, ShmProcess.isOpen, ShmProcess.unlink] at hlaw
      | some a =>
        simp only [hmmap] at hstep
        exact hstep ▸ hlink.created hlook
    | false =>
      simp only [htrunc, Bool.false_eq_true, if_false] at hstep
      rw [← hstep]
      apply hlink.unlink
      intro other hsome
      rw [hlook, Option.some.injEq] at hsome
      have hnot := hre.notOwned
      simp only [ShmProcess.reclaimed_nextSegment] at hnot
      exact hsome ▸ hnot

theorem ChannelInv.openChannel {c : OpenCalls} (h : ChannelInv s)
    (hstep : shmStep s (.openChannel name c) = some t)
    (hlaw : ChannelLawful s (.openChannel name c)) : ChannelInv t := by
  simp only [shmStep] at hstep
  split at hstep
  · simp at hstep
  simp only [Option.some.injEq] at hstep
  simp only [ChannelLawful, ShmProcess.retryable_iff] at hlaw
  unfold ShmProcess.openChannel at hstep hlaw
  cases hopen : s.isOpen with
  | true => simp [hopen] at hlaw
  | false =>
    have hctrl : s.ctrl = none := h.ctrl (ShmProcess.isOpen_eq_false.mp hopen)
    simp only [hopen, Bool.false_eq_true, if_false] at hstep hlaw
    split at hstep
    · rename_i fd segment _ hlook
      simp only [hlook] at hlaw
      split at hstep
      · exact hstep ▸ h
      · rename_i size _
        split at hstep
        · rename_i hfd hmmap
          simp_all [ShmProcess.isOpen]
        · split at hstep
          · exact hstep ▸ (h.resize size).opened hlook
          · have hsame := h.resize size
            rw [← hctrl] at hstep
            exact hstep ▸ hsame
    · exact hstep ▸ h

/-- What is left of the names. -/
theorem ShmProcess.destroy_lookup (n : Bytes) :
    s.destroy.2.directory.lookup n
      = if s.isCreator = true ∧ s.name ≠ [] ∧ n = s.name then none
        else s.directory.lookup n := by
  unfold destroy
  by_cases hun : s.isCreator = true ∧ s.name ≠ []
  · simp [hun, AssocTable.lookup_erase_ite]
  · have hnot : (s.isCreator && decide (s.name ≠ [])) = false := by
      simpa using hun
    have hcond : ¬(s.isCreator = true ∧ s.name ≠ [] ∧ n = s.name) := fun hc => hun ⟨hc.1, hc.2.1⟩
    simp only [hnot, Bool.false_eq_true, if_false, hcond]

/-- Whatever it unlinked, no segment of the object has the name then. -/
theorem ChannelInv.destroy (h : ChannelInv s) : ChannelInv s.destroy.2 where
  one n m segment hn hm := by
    rw [ShmProcess.destroy_lookup] at hn hm
    split at hn
    · simp at hn
    split at hm
    · simp at hm
    exact h.one n m segment hn hm
  fresh n segment hn := by
    rw [ShmProcess.destroy_lookup] at hn
    split at hn
    · simp at hn
    exact h.fresh n segment hn
  linked segment hown := by
    simp only [ShmProcess.destroy, List.mem_filter] at hown
    obtain ⟨hold, hnot⟩ := hown
    obtain ⟨n, hn⟩ := h.linked segment hold
    refine ⟨n, ?_⟩
    rw [ShmProcess.destroy_lookup]
    split
    · rename_i hcond
      obtain ⟨hcreator, hne, rfl⟩ := hcond
      simp [hcreator, hne, hn] at hnot
    · exact hn
  valid := by simp [ShmProcess.destroy]
  closed := by simp [ShmProcess.destroy]
  ctrl := by simp [ShmProcess.destroy]
  mapped := by simp [ShmProcess.destroy]
  gone _ hcreator hne segment hlook := by
    rw [ShmProcess.destroy_lookup, if_pos ⟨hcreator, hne, rfl⟩] at hlook
    simp at hlook

theorem ChannelInv.step (h : ChannelInv s) (a : ShmAct) (hlaw : ChannelLawful s a)
    (hstep : shmStep s a = some t) : ChannelInv t := by
  cases a with
  | create name req_buf_size resp_buf_size c => exact h.create hstep hlaw
  | openChannel name c => exact h.openChannel hstep hlaw
  | destroy =>
    simp only [shmStep, Option.some.injEq] at hstep
    exact hstep ▸ h.destroy
  | otherCreate name =>
    simp only [shmStep] at hstep
    split at hstep
    · rename_i hfree
      simp only [Option.some.injEq] at hstep
      exact hstep ▸ h.link (by simpa using hfree)
    · simp at hstep
  | otherUnlink name =>
    simp only [shmStep] at hstep
    split at hstep
    · rename_i hother
      simp only [Option.some.injEq] at hstep
      rw [← hstep]
      apply h.unlink
      intro segment hlook
      simpa [hlook] using hother
    · simp at hstep

theorem create_lawful_iff {c : CreateCalls} :
    ChannelLawful s (.create name req_buf_size resp_buf_size c)
      ↔ ChannelFits s (.create name req_buf_size resp_buf_size c) := by
  simp only [ChannelLawful, ChannelFits, ShmProcess.retryable_iff]
  unfold ShmProcess.create
  cases hmade : s.made name c with
  | none => simp [ShmProcess.isOpen]
  | some fd =>
    cases htrunc : c.ftruncate with
    | false => simp [ShmProcess.isOpen, ShmProcess.link, ShmProcess.unlink]
    | true =>
      cases hmmap : c.mmap with
      | none => simp [ShmProcess.isOpen, ShmProcess.unlink]
      | some a => simp

theorem open_lawful_iff {c : OpenCalls} :
    ChannelLawful s (.openChannel name c) ↔ ChannelFits s (.openChannel name c) := by
  simp only [ChannelLawful, ChannelFits, ShmProcess.retryable_iff]
  unfold ShmProcess.openChannel
  cases hopen : s.isOpen with
  | true => simp [hopen]
  | false =>
    cases hfd : c.shmOpen with
    | none => simp [hopen]
    | some fd =>
      cases hlook : s.directory.lookup name with
      | none => simp [hopen]
      | some segment =>
        cases hstat : c.fstat with
        | none => simp [hopen]
        | some size =>
          cases hmmap : c.mmap with
          | none => simp [ShmProcess.isOpen]
          | some a =>
            have haddr := ShmProcess.isOpen_eq_false.mp hopen
            simp only [Bool.false_eq_true, if_false]
            split <;> simp [ShmProcess.isOpen, haddr]

/-- An address that is set came from an `mmap`. -/
theorem ChannelInv.unmapped (h : ChannelInv s) (m : MapAddress)
    (hun : s.destroy.1.unmapped = some (m, size)) :
    ∃ a, m = .mapped a ∧ (s.mappings.lookup a).isSome := by
  simp only [ShmProcess.destroy] at hun
  split at hun
  · simp only [Option.some.injEq, Prod.mk.injEq] at hun
    obtain ⟨rfl, _⟩ := hun
    cases haddr : s.addr with
    | nullptr => simp_all [ShmProcess.isOpen]
    | MAP_FAILED => exact absurd haddr h.valid
    | mapped a =>
      obtain ⟨_, segment, size, hmap, _, _⟩ := h.mapped a haddr
      exact ⟨a, rfl, by simp [hmap]⟩
  · simp at hun

/-- What `_ctrl` points into, of an object that is not closed. -/
theorem ChannelInv.live (h : ChannelInv s) (hrole : s.role ≠ .closed) :
    ∃ a segment size, s.ctrl = some a ∧ s.mappings.lookup a = some (segment, size) ∧
      (s.role = .created → segment ∈ s.owned) ∧
      (segment ∈ s.owned → s.directory.lookup s.name = some segment) := by
  cases haddr : s.addr with
  | nullptr => exact absurd (h.closed.mpr haddr) hrole
  | MAP_FAILED => exact absurd haddr h.valid
  | mapped a =>
    obtain ⟨hctrl, segment, size, hmap, hcreated, hlook⟩ := h.mapped a haddr
    exact ⟨a, segment, size, hctrl, hmap, hcreated, hlook⟩

/-- An object that is not closed, whose control block is in a segment of its own. -/
theorem ChannelInv.rightful (h : ChannelInv s) (hrole : s.role ≠ .closed)
    (hown : ∀ segment, s.control = some segment → segment ∈ s.owned) :
    s.destroy.1.Rightful s := by
  obtain ⟨a, segment, size, hctrl, hmap, _, hlook⟩ := h.live hrole
  have hmine : segment ∈ s.owned := hown segment (by simp [ShmProcess.control, hctrl, hmap])
  refine ⟨fun m size => h.unmapped m, fun b hb => ?_, fun other hun => ?_⟩
  · simp only [ShmProcess.destroy] at hb
    split at hb
    · rw [hctrl, Option.some.injEq] at hb
      exact ⟨segment, size, hb ▸ hmap, hmine⟩
    · simp at hb
  · simp only [ShmProcess.destroy, hlook hmine] at hun
    split at hun
    · simp only [Option.some.injEq] at hun
      exact hun ▸ hmine
    · simp at hun

theorem ChannelInv.destroy_lawful_iff (h : ChannelInv s) :
    ChannelLawful s .destroy ↔ ChannelFits s .destroy := by
  simp only [ChannelLawful, ChannelFits]
  cases hcreator : s.isCreator with
  | false =>
    simp only [Bool.false_eq_true, false_implies, iff_true]
    exact ⟨fun m size => h.unmapped m, by simp [ShmProcess.destroy, hcreator],
      by simp [ShmProcess.destroy, hcreator]⟩
  | true =>
    cases hrole : s.role with
    | created =>
      obtain ⟨a, segment, size, hctrl, hmap, hcreated, _⟩ := h.live (by simp [hrole])
      simp only [forall_const, iff_true]
      apply h.rightful (by simp [hrole])
      intro other hother
      have heq : segment = other := by simpa [ShmProcess.control, hctrl, hmap] using hother
      exact heq ▸ hcreated hrole
    | opened =>
      obtain ⟨a, segment, size, hctrl, hmap, _, _⟩ := h.live (by simp [hrole])
      have hcontrol : s.control = some segment := by simp [ShmProcess.control, hctrl, hmap]
      constructor
      · intro hlaw _
        obtain ⟨other, size', hother, hmine⟩ :=
          hlaw.cleared a (by simp [ShmProcess.destroy, hcreator, hctrl])
        simp only [hmap, Option.some.injEq, Prod.mk.injEq] at hother
        exact ⟨segment, hother.1 ▸ hmine, hcontrol⟩
      · intro hfits
        obtain ⟨mine, hmine, heq⟩ := hfits rfl
        apply h.rightful (by simp [hrole])
        intro other hother
        simp only [heq, Option.some.injEq] at hother
        exact hother ▸ hmine
    | closed =>
      have hctrl : s.ctrl = none := h.ctrl (h.closed.mp hrole)
      constructor
      · intro hlaw _
        by_cases hname : s.name = []
        · exact Or.inl hname
        · right
          cases hlook : s.directory.lookup s.name with
          | none => rfl
          | some segment =>
            have hmine := hlaw.unlinked segment
              (by simp [ShmProcess.destroy, hcreator, hname, hlook])
            exact absurd hmine (h.gone hrole hcreator hname segment hlook)
      · intro hfits
        refine ⟨fun m size => h.unmapped m, by simp [ShmProcess.destroy, hctrl], ?_⟩
        intro segment hun
        cases hfits rfl with
        | inl hname => simp [ShmProcess.destroy, hname] at hun
        | inr hlook => simp [ShmProcess.destroy, hlook] at hun

end Lifecycle

/-- Over any run, a failed `create` or `open` leaves the channel closed and another
`open` possible, and a `destroy` keeps to what is its own, exactly when every call fits. -/
theorem channel_lawful_iff (acts : List ShmAct) :
    Along shmStep ChannelLawful {} acts ↔ Along shmStep ChannelFits {} acts := by
  apply Along.congr_of ChannelInv
  · intro s a t h hlaw hstep
    exact h.step a hlaw hstep
  · intro s a h
    cases a with
    | create name req_buf_size resp_buf_size c => exact create_lawful_iff
    | openChannel name c => exact open_lawful_iff
    | destroy => exact h.destroy_lawful_iff
    | otherCreate name => exact Iff.rfl
    | otherUnlink name => exact Iff.rfl
  · exact ChannelInv.init

/-- Calls that all succeed, but for `mmap` where it has no address. -/
def createCalls (mmap : Option Nat) : CreateCalls where
  shmOpen := some 3
  reclaim := ⟨true, some SHM_CTRL_SIZE, true, ⟨true, SHM_MAGIC, SHM_VERSION, 1⟩, false, true⟩
  shmOpenAgain := some 3
  ftruncate := true
  mmap

/-- `is_open` after a `create` whose `mmap` failed; and a second `destroy`, as the
destructor's after an explicit one, that unlinks the segment which another process
has created in between. -/
theorem channel_unlawful :
    ¬Along shmStep ChannelLawful {} [.create [47, 115] 4096 4096 (createCalls none)] ∧
      ¬Along shmStep ChannelLawful {}
        [.create [47, 115] 4096 4096 (createCalls (some 16)), .destroy, .otherCreate [47, 115],
          .destroy] := by
  constructor
  · intro h
    have hretry := h.1 (by decide)
    exact absurd hretry.closed (by decide)
  · intro h
    have hlast := (((h.2 _ rfl).2 _ rfl).2 _ rfl).1
    exact absurd (hlast.unlinked 1 rfl) (by decide)

end LyqtRpc
