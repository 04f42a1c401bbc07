/-
# Espmod.Intr.Alloc — the interrupt allocator

`esp_intr_alloc` finds an interrupt line for a source. What it knows of the lines is a table of the lines'
levels and kinds, `int_desc`, and a list of descriptors, one for each line that was ever asked for, in
the order of CPU and line. A line is free, held by one caller, shared by several handlers, or reserved.

A descriptor is never released and there is one for each line, so that a pointer to it is its CPU and its
line. The entries of a shared line come from the heap and go back to it: each has an address of its own.
An operation whose assertion fails has no result.
-/
import Espmod.Intr.Controller
import Espmod.Intr.Handlers
import Espmod.Intr.Priority
import Espmod.Lib.FirstMatch
import Mathlib.Data.List.Sort

namespace Espmod.Intr

open Espmod.Lib

/-! ## §1 — the lines -/

/-- `int_type_t`. -/
inductive IntType where
  | level
  | edge
  | na
deriving Repr, DecidableEq

/-- `int_desc_flag_t`. -/
inductive IntDescFlag where
  | normal
  | resvd
  | special
deriving Repr, DecidableEq

/-- `int_desc_t`; the flags are those of CPU 0 and of CPU 1. -/
structure IntDesc where
  level : Nat
  type : IntType
  cpuflags : IntDescFlag × IntDescFlag
deriving Repr, DecidableEq

/-- A line that is the same on both CPUs. -/
def IntDesc.both (level : Nat) (type : IntType) (f : IntDescFlag) : IntDesc := ⟨level, type, f, f⟩

/-- `int_desc`; `CONFIG_FREERTOS_CORETIMER_0` is set, so that line 6 is reserved. -/
def intDescs : List IntDesc :=
  [.both 1 .level .resvd, .both 1 .level .resvd, .both 1 .level .normal, .both 1 .level .normal,
    ⟨1, .level, .resvd, .normal⟩, .both 1 .level .resvd, .both 1 .na .resvd, .both 1 .na .special,
    .both 1 .level .resvd, .both 1 .level .normal, .both 1 .edge .normal, .both 3 .na .special,
    .both 1 .level .normal, .both 1 .level .normal, .both 7 .level .resvd, .both 3 .na .special,
    .both 5 .na .special, .both 1 .level .normal, .both 1 .level .normal, .both 2 .level .normal,
    .both 2 .level .normal, .both 2 .level .normal, ⟨3, .edge, .resvd, .normal⟩, .both 3 .level .normal,
    ⟨4, .level, .resvd, .normal⟩, .both 4 .level .resvd, ⟨5, .level, .normal, .resvd⟩,
    .both 3 .level .resvd, .both 4 .edge .normal, .both 3 .na .special, .both 4 .edge .resvd,
    .both 5 .level .resvd]

/-- `int_desc[x]`. -/
def intDesc (x : Nat) : IntDesc := intDescs.getD x (.both 0 .na .resvd)

/-- `int_desc[x].cpuflags[cpu]`. -/
def IntDesc.cpuflag (i : IntDesc) (cpu : Nat) : IntDescFlag := if cpu = 0 then i.cpuflags.1 else i.cpuflags.2

/-- The levels are those by which `get_next` picks. -/
theorem intDescs_level : intDescs.map IntDesc.level = intDescLevels := by decide

/-! ## §2 — the request -/

/-- Bits of the `ESP_INTR_FLAG_*` word. -/
def espIntrFlagShared : Nat := 8
def espIntrFlagEdge : Nat := 9
def espIntrFlagIram : Nat := 10
def espIntrFlagIntrdisabled : Nat := 11

/-- Words of them. -/
def espIntrFlagLevel1 : BitVec 32 := 0x02
def espIntrFlagLowmed : BitVec 32 := 0x0e
def espIntrFlagHigh : BitVec 32 := 0xf0
def espIntrFlagLevelmask : BitVec 32 := 0xfe

/-- The arguments of `esp_intr_alloc_intrstatus`; `esp_intr_alloc` has 0 for the register and the mask.
Function 0 is the null pointer. -/
structure Request where
  source : Int
  flags : BitVec 32
  intrstatusreg : BitVec 32
  intrstatusmask : BitVec 32
  handler : Nat
  arg : Nat
deriving DecidableEq

namespace Request

variable (r : Request)

def has (bit : Nat) : Bool := r.flags.getLsbD bit

/-- The combinations of arguments that are refused. -/
def BadArgs : Prop :=
  r.has espIntrFlagShared = true ∧ r.has espIntrFlagEdge = true ∨
    r.flags &&& espIntrFlagHigh ≠ 0 ∧ r.handler ≠ 0 ∨
    r.has espIntrFlagShared = true ∧ (r.handler = 0 ∨ r.source < 0) ∨
    r.intrstatusreg ≠ 0 ∧ r.intrstatusmask = 0

instance : Decidable r.BadArgs := inferInstanceAs (Decidable (_ ∨ _))

/-- The request with the levels it gets when it names none. -/
def withLevels : Request :=
  if r.flags &&& espIntrFlagLevelmask = 0 then
    if r.has espIntrFlagShared then { r with flags := r.flags ||| espIntrFlagLevel1 }
    else { r with flags := r.flags ||| espIntrFlagLowmed }
  else r

/-- The line to which a source inside the CPU is tied. -/
def forced (source : Int) : Option Nat :=
  if source = -6 then some 11
  else if source = -5 then some 29
  else if source = -4 then some 7
  else if source = -3 then some 16
  else if source = -2 then some 15
  else if source = -1 then some 6
  else none

end Request

/-! ## §3 — the descriptors -/

/-- `VECDESC_FL_*`. -/
structure VecFlags where
  reserved : Bool
  inIram : Bool
  shared : Bool
  nonShared : Bool
deriving Repr, DecidableEq

def VecFlags.none : VecFlags := ⟨false, false, false, false⟩

/-- `shared_vector_desc_t`, with its address. -/
structure SharedVectorDesc where
  addr : Nat
  disabled : Bool
  source : Int
  statusreg : BitVec 32
  statusmask : BitVec 32
  isr : Nat
  arg : Nat
deriving DecidableEq

/-- `vector_desc_t`. -/
structure VectorDesc where
  flags : VecFlags
  cpu : Nat
  intno : Nat
  source : Int
  sharedVecInfo : List SharedVectorDesc
deriving DecidableEq

/-- What a field of eight bits keeps of a source. -/
def storeSource (source : Int) : Int := source.bmod 256

namespace VectorDesc

/-- A descriptor as `memset` leaves it. -/
def empty (cpu intno : Nat) : VectorDesc := ⟨.none, cpu, intno, 0, []⟩

/-- The CPU and the line of a descriptor. -/
def key (d : VectorDesc) : Nat × Nat := (d.cpu, d.intno)

/-- The descriptor before which `insert_vector_desc` stops. -/
def Stops (a b : VectorDesc) : Prop := b.cpu > a.cpu ∨ b.cpu = a.cpu ∧ b.intno ≥ a.intno

instance : DecidableRel Stops := fun _ _ => inferInstanceAs (Decidable (_ ∨ _))

end VectorDesc

/-- `intr_handle_data_t`. -/
structure IntrHandleData where
  vectorDesc : Nat × Nat
  sharedVectorDesc : Option Nat
deriving DecidableEq

/-- The variables of the file, the interrupt module, and the next address on the heap. -/
structure IntrAlloc where
  vectorDescHead : List VectorDesc
  nonIramIntMask : Nat → BitVec 32
  nonIramIntDisabled : Nat → BitVec 32
  nonIramIntDisabledFlag : Nat → Bool
  intr : EspIntr
  drivers : EspIntrDrivers
  heap : Nat

/-- What `malloc` is called for. -/
inductive Malloc where
  | handle
  | vectorDesc
  | sharedVectorDesc
deriving DecidableEq

/-- `esp_err_t`. -/
inductive EspErr where
  | ok
  | noMem
  | invalidArg
  | notFound
  | fail
deriving Repr, DecidableEq

/-- The number of the processor on which everything runs: `xPortGetCoreID` returns 1. -/
def xPortGetCoreID : Nat := 1

/-- `shared_intr_isr` as a function pointer. -/
def sharedIntrIsrFn : Nat := 1

/-- A pointer to a descriptor, as the argument of a handler. -/
def descAddr (k : Nat × Nat) : Nat := 32 * k.1 + k.2 + 1

namespace IntrAlloc

/-- At the start: the interrupt module as it is initialized, no descriptor. -/
def new (mask : BitVec 32) : IntrAlloc where
  vectorDescHead := []
  nonIramIntMask _ := 0
  nonIramIntDisabled _ := 0
  nonIramIntDisabledFlag _ := false
  intr := .new mask
  drivers := .new
  heap := 0

variable (s : IntrAlloc)

/-! ## §4 — the list -/

/-- `insert_vector_desc`. -/
def insertVectorDesc (d : VectorDesc) : IntrAlloc :=
  { s with vectorDescHead := s.vectorDescHead.orderedInsert VectorDesc.Stops d }

/-- `find_desc_for_int`. -/
def findDescForInt (intno cpu : Nat) : Option VectorDesc :=
  FirstMatch.find VectorDesc.key (cpu, intno) s.vectorDescHead

/-- `get_desc_for_int`, after which the list has the descriptor; `none` when `malloc` fails. -/
def getDescForInt (fails : Malloc → Bool) (intno cpu : Nat) : Option IntrAlloc :=
  match s.findDescForInt intno cpu with
  | some _ => some s
  | none => if fails .vectorDesc then none else some (s.insertVectorDesc (.empty cpu intno))

/-- A descriptor changed through a pointer to it. -/
def update (k : Nat × Nat) (f : VectorDesc → VectorDesc) : IntrAlloc :=
  { s with vectorDescHead := FirstMatch.update VectorDesc.key k f s.vectorDescHead }

/-- One turn of the loop of `find_desc_for_source`: whether the descriptor has the source. An empty shared
line fails the assertion. -/
def carries (source : Int) (cpu : Nat) (d : VectorDesc) : Option Bool :=
  if d.flags.shared = false then some (d.source = source ∧ cpu = d.cpu)
  else if d.cpu = cpu then
    if d.sharedVecInfo = [] then none else some (d.sharedVecInfo.any fun v => v.source = source)
  else some false

/-- `find_desc_for_source`. -/
def findDescForSource (source : Int) (cpu : Nat) : List VectorDesc → Option (Option VectorDesc)
  | [] => some none
  | d :: ds => do
    if ← carries source cpu d then some (some d) else findDescForSource source cpu ds

/-! ## §5 — the choice -/

/-- `int_has_handler`. -/
def intHasHandler (intr cpu : Nat) : Bool := s.drivers.hasHandler cpu intr

/-- `is_vect_desc_usable`; `force` is none for −1. -/
def isVectDescUsable (d : VectorDesc) (r : Request) (cpu : Nat) (force : Option Nat) : Option Bool :=
  let i := intDesc d.intno
  if i.cpuflag cpu = .resvd then some false
  else if i.cpuflag cpu = .special ∧ force = none then some false
  else if r.has i.level = false then some false
  else if r.has espIntrFlagEdge = true ∧ i.type = .level ∨
      r.has espIntrFlagEdge = false ∧ i.type = .edge then some false
  else if d.flags.reserved then some false
  else if d.flags.shared = true ∧ d.flags.nonShared = true then none
  else if d.flags.nonShared then some false
  else if d.flags.shared then
    some (r.has espIntrFlagShared && (d.flags.inIram == r.has espIntrFlagIram))
  else some (!s.intHasHandler d.intno cpu)

/-- The descriptor of a line, or the default one. -/
def descOrEmpty (intno cpu : Nat) : VectorDesc := (s.findDescForInt intno cpu).getD (.empty cpu intno)

/-- `best`, `bestLevel` and `bestSharedCt`. -/
structure Best where
  best : Option Nat
  level : Nat
  sharedCt : Nat
deriving DecidableEq

/-- They start at −1, 9 and `INT_MAX`. -/
def Best.start : Best := ⟨none, 9, 2147483647⟩

/-- What a usable line does to them. -/
def Best.consider (r : Request) (x : Nat) (d : VectorDesc) (b : Best) : Best :=
  let level := (intDesc x).level
  if r.has espIntrFlagShared then
    if d.flags.shared then
      let no := d.sharedVecInfo.length
      if no < b.sharedCt ∨ b.level > level then ⟨some x, level, no⟩ else b
    else if b.best = none then
      if b.level > level then { b with best := some x, level := level } else b
    else b
  else if b.level > level then { b with best := some x, level := level }
  else b

/-- One turn of the loop over the lines. -/
def tryLine (r : Request) (cpu : Nat) (b : Best) (x : Nat) : Option Best := do
  let d := s.descOrEmpty x cpu
  if ← s.isVectDescUsable d r cpu none then some (b.consider r x d) else some b

/-- `get_available_int`; the result `none` is −1. -/
def getAvailableInt (r : Request) (cpu : Nat) (force : Option Nat) : Option (Option Nat) := do
  let r := if r.flags &&& espIntrFlagLevelmask = 0 then
    { r with flags := r.flags ||| espIntrFlagLowmed } else r
  match ← findDescForSource r.source cpu s.vectorDescHead with
  | some d =>
    if force ≠ none ∧ force ≠ some d.intno then some none
    else if ← s.isVectDescUsable d r cpu force then some (some d.intno)
    else some none
  | none =>
    match force with
    | some x => if ← s.isVectDescUsable (s.descOrEmpty x cpu) r cpu force then some (some x) else some none
    | none =>
      let b ← (List.range 32).foldlM (s.tryLine r cpu) .start
      some b.best

/-! ## §6 — the interrupt module -/

/-- `intr_matrix_set`, with a source that is not negative. -/
def intrMatrixSet (cpu : Nat) (source : Int) (intno : Nat) : IntrAlloc :=
  { s with intr := s.intr.alloc cpu source intno }

/-- `ESP_INTR_ENABLE` and `ESP_INTR_DISABLE`, through `ets_isr_unmask` and `ets_isr_mask`. -/
def espIntrEnableLine (intno : Nat) : IntrAlloc :=
  { s with intr := s.intr.setintrmask ((1 : BitVec 32) <<< intno) xPortGetCoreID }

def espIntrDisableLine (intno : Nat) : IntrAlloc :=
  { s with intr := s.intr.clrintrmask ((1 : BitVec 32) <<< intno) xPortGetCoreID }

/-- `espintr::assignfn`, `deassignfn` and `set_edge`. -/
def assignfn (cpu intno fn arg : Nat) : IntrAlloc :=
  { s with drivers := s.drivers.assignfn cpu intno fn arg }

def deassignfn (cpu intno : Nat) : IntrAlloc := { s with drivers := s.drivers.deassignfn cpu intno }

def setEdge (edgemask : BitVec 32) (cpu : Nat) : IntrAlloc :=
  { s with drivers :=
      if cpu = 0 then s.drivers.setEdge (s.drivers.edgeInterruptPro ||| edgemask) .pro
      else s.drivers.setEdge (s.drivers.edgeInterruptApp ||| edgemask) .app }

/-- `non_iram_int_mask[cpu]` with the bit of a line set or cleared. -/
def setNonIram (cpu intno : Nat) (set : Bool) : IntrAlloc :=
  let bit : BitVec 32 := (1 : BitVec 32) <<< intno
  { s with
    nonIramIntMask := Function.update s.nonIramIntMask cpu
      (if set then s.nonIramIntMask cpu ||| bit else s.nonIramIntMask cpu &&& ~~~bit) }

/-! ## §7 — enabling and disabling -/

/-- The descriptor of a handle. -/
def descOf (h : IntrHandleData) : VectorDesc :=
  (FirstMatch.find VectorDesc.key h.vectorDesc s.vectorDescHead).getD
    (.empty h.vectorDesc.1 h.vectorDesc.2)

/-- The shared entry at an address changed. -/
def updateShared (k : Nat × Nat) (addr : Nat) (f : SharedVectorDesc → SharedVectorDesc) : IntrAlloc :=
  s.update k fun d =>
    { d with sharedVecInfo := d.sharedVecInfo.map fun v => if v.addr = addr then f v else v }

/-- The source of a handle: of its shared entry if it has one, of the line's descriptor else. -/
def sourceOf (h : IntrHandleData) : Int :=
  match h.sharedVectorDesc with
  | some addr =>
    (((s.descOf h).sharedVecInfo.find? fun v => v.addr = addr).map SharedVectorDesc.source).getD 0
  | none => (s.descOf h).source

/-- `disabled` of the shared entry of a handle. -/
def setDisabled (h : IntrHandleData) (disabled : Bool) : IntrAlloc :=
  match h.sharedVectorDesc with
  | some addr => s.updateShared h.vectorDesc addr fun v => { v with disabled := disabled }
  | none => s

/-- `esp_intr_enable`. -/
def espIntrEnable (h : Option IntrHandleData) : EspErr × IntrAlloc :=
  match h with
  | none => (.invalidArg, s)
  | some h =>
    let s := s.setDisabled h false
    let source := s.sourceOf h
    if source ≥ 0 then (.ok, s.intrMatrixSet h.vectorDesc.1 source h.vectorDesc.2)
    else if h.vectorDesc.1 ≠ xPortGetCoreID then (.invalidArg, s)
    else (.ok, s.espIntrEnableLine h.vectorDesc.2)

/-- `INT_MUX_DISABLED_INTNO`. -/
def intMuxDisabledIntno : Nat := 6

/-- Whether an entry of the handle's line still wants its source: `disabled` is then 0. -/
def stillWanted (h : IntrHandleData) : Bool :=
  h.sharedVectorDesc.isSome &&
    (s.descOf h).sharedVecInfo.any fun v => v.source = s.sourceOf h ∧ v.disabled = false

/-- `esp_intr_disable`; the shared line of a handle must have an entry. -/
def espIntrDisable (h : Option IntrHandleData) : Option (EspErr × IntrAlloc) :=
  match h with
  | none => some (.invalidArg, s)
  | some h =>
    let s := s.setDisabled h true
    if h.sharedVectorDesc.isSome = true ∧ (s.descOf h).sharedVecInfo = [] then none
    else
      let source := s.sourceOf h
      if source ≥ 0 then
        if s.stillWanted h then some (.ok, s)
        else some (.ok, s.intrMatrixSet h.vectorDesc.1 source intMuxDisabledIntno)
      else if h.vectorDesc.1 ≠ xPortGetCoreID then some (.invalidArg, s)
      else some (.ok, s.espIntrDisableLine h.vectorDesc.2)

/-! ## §8 — allocating -/

/-- A shared handler on a line: the new entry stands first. -/
def attach (r : Request) (k : Nat × Nat) : IntrAlloc :=
  let v : SharedVectorDesc :=
    ⟨s.heap, false, storeSource r.source, r.intrstatusreg, r.intrstatusmask, r.handler, r.arg⟩
  let s := { s with heap := s.heap + 1 }
  let s := s.update k fun d =>
    { d with sharedVecInfo := v :: d.sharedVecInfo, flags := { d.flags with shared := true } }
  s.assignfn k.1 k.2 sharedIntrIsrFn (descAddr k)

/-- A line for one handler. -/
def take (r : Request) (k : Nat × Nat) : IntrAlloc :=
  let s := if r.handler = 0 then s else s.assignfn k.1 k.2 r.handler r.arg
  let s := if r.has espIntrFlagEdge then s.setEdge ((1 : BitVec 32) <<< k.2) k.1 else s
  s.update k fun d =>
    { d with flags := { VecFlags.none with nonShared := true }, source := storeSource r.source }

/-- The rest of the allocation, on a line whose descriptor exists. -/
def connect (r : Request) (k : Nat × Nat) : IntrAlloc :=
  let s := if r.has espIntrFlagShared then s.attach r k else s.take r k
  let s := s.update k fun d => { d with flags := { d.flags with inIram := r.has espIntrFlagIram } }
  let s := s.setNonIram k.1 k.2 (!r.has espIntrFlagIram)
  let s := if r.source ≥ 0 then s.intrMatrixSet k.1 r.source k.2 else s
  s.espIntrEnableLine k.2

/-- The handle that is returned. -/
def handleFor (k : Nat × Nat) : IntrHandleData where
  vectorDesc := k
  sharedVectorDesc := ((s.descOf ⟨k, none⟩).sharedVecInfo.map SharedVectorDesc.addr).head?

/-- `esp_intr_alloc_intrstatus`: the result, the handle, the state. -/
def espIntrAllocIntrstatus (fails : Malloc → Bool) (r : Request) :
    Option (EspErr × Option IntrHandleData × IntrAlloc) :=
  if r.BadArgs then some (.invalidArg, none, s)
  else if fails .handle then some (.noMem, none, s)
  else
    let r := r.withLevels
    match s.getAvailableInt r xPortGetCoreID (Request.forced r.source) with
    | none => none
    | some none => some (.notFound, none, s)
    | some (some intr) =>
      match s.getDescForInt fails intr xPortGetCoreID with
      | none => some (.noMem, none, s)
      | some s =>
        if r.has espIntrFlagShared = true ∧ fails .sharedVectorDesc = true then some (.noMem, none, s)
        else
          let s := s.connect r (xPortGetCoreID, intr)
          let h := s.handleFor (xPortGetCoreID, intr)
          if r.has espIntrFlagIntrdisabled then
            match s.espIntrDisable (some h) with
            | none => none
            | some (_, s) => some (.ok, some h, s)
          else some (.ok, some h, s)

/-! ## §9 — freeing -/

/-- A line without users: no handler, no flag, no bit in `non_iram_int_mask`. -/
def release (k : Nat × Nat) : IntrAlloc :=
  let s := s.deassignfn k.1 k.2
  -- the mask is negated with `!`, so that it clears every flag
  let s := s.update k fun d => { d with flags := .none }
  s.setNonIram k.1 k.2 false

/-- The shared entry at an address taken out of its line. -/
def detach (k : Nat × Nat) (addr : Option Nat) : IntrAlloc :=
  s.update k fun d => { d with sharedVecInfo := d.sharedVecInfo.eraseP fun v => some v.addr = addr }

/-- `esp_intr_free`. -/
def espIntrFree (h : Option IntrHandleData) : Option (EspErr × IntrAlloc) :=
  match h with
  | none => some (.invalidArg, s)
  | some h =>
    if h.vectorDesc.1 ≠ xPortGetCoreID then some (.fail, s)
    else
      match s.espIntrDisable (some h) with
      | none => none
      | some (_, s) =>
        if (s.descOf h).flags.shared then
          if (s.descOf h).sharedVecInfo = [] then none
          else
            let s := s.detach h.vectorDesc h.sharedVectorDesc
            if (s.descOf h).flags.nonShared = true ∨ (s.descOf h).sharedVecInfo = [] then
              some (.ok, s.release h.vectorDesc)
            else some (.ok, s)
        else if (s.descOf h).flags.nonShared then some (.ok, s.release h.vectorDesc)
        else some (.ok, s)

/-! ## §10 — marking and masking -/

/-- The common part of `esp_intr_mark_shared` and `esp_intr_reserve`. -/
def setFlags (fails : Malloc → Bool) (intno cpu : Nat) (flags : VecFlags) : EspErr × IntrAlloc :=
  if 31 < intno then (.invalidArg, s)
  else if 2 ≤ cpu then (.invalidArg, s)
  else
    match s.getDescForInt fails intno cpu with
    | none => (.noMem, s)
    | some s => (.ok, s.update (cpu, intno) fun d => { d with flags := flags })

/-- `esp_intr_mark_shared`. -/
def espIntrMarkShared (fails : Malloc → Bool) (intno cpu : Nat) (isIntRam : Bool) : EspErr × IntrAlloc :=
  s.setFlags fails intno cpu { VecFlags.none with shared := true, inIram := isIntRam }

/-- `esp_intr_reserve`. -/
def espIntrReserve (fails : Malloc → Bool) (intno cpu : Nat) : EspErr × IntrAlloc :=
  s.setFlags fails intno cpu { VecFlags.none with reserved := true }

/-- `esp_intr_noniram_disable`, which aborts when it has been called already. -/
def espIntrNoniramDisable : Option IntrAlloc :=
  let cpu := xPortGetCoreID
  if s.nonIramIntDisabledFlag cpu then none
  else some { s with
    nonIramIntDisabledFlag := Function.update s.nonIramIntDisabledFlag cpu true
    intr := s.intr.clrintrmask (s.nonIramIntMask cpu) cpu
    nonIramIntDisabled := Function.update s.nonIramIntDisabled cpu
      (s.intr.maskApp.cur &&& s.nonIramIntMask cpu) }

/-- `esp_intr_noniram_enable`, which aborts when it has not. -/
def espIntrNoniramEnable : Option IntrAlloc :=
  let cpu := xPortGetCoreID
  if s.nonIramIntDisabledFlag cpu = false then none
  else some { s with
    nonIramIntDisabledFlag := Function.update s.nonIramIntDisabledFlag cpu false
    intr := s.intr.setintrmask (s.nonIramIntDisabled cpu) cpu }

end IntrAlloc

/-! ## §11 — the shared handler -/

/-- `shared_intr_isr`: `read` is the value of a status register, `call` what a handler does. -/
def sharedIntrIsr {ω : Type} (read : ω → BitVec 32 → BitVec 32) (call : Nat → Nat → ω → ω) :
    List SharedVectorDesc → ω → ω
  | [], world => world
  | v :: vs, world =>
    if v.disabled = false ∧ (v.statusreg = 0 ∨ read world v.statusreg &&& v.statusmask ≠ 0) then
      sharedIntrIsr read call vs (call v.isr v.arg world)
    else sharedIntrIsr read call vs world

end Espmod.Intr
