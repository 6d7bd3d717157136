import Amber.Core.VirtioSnapshot
import Amber.Lib.Failing

/-!
# The virtio devices of a VM, built and rebuilt

`Vm::prepare` and `Vm::restore_from` of `amber-core/src/vm.rs` each put the virtio devices on the
bus one after another, and the position of a device gives its MMIO window and its interrupt.
`prepare` goes by the configuration, `restore_from` by what the snapshot's metadata says, which
in turn was read off the device ids at the capture.  `run` then hands the captured transport
states to the rebuilt devices by position.

* `prepare_spec`, `restoreFrom_spec` — the slots of the two lists, as functions of what was asked.
* `slots_of_run` — whatever a guest does to its devices, the slots stay.
* `restore_aligned` — a rebuilt list that is accepted has the captured list's slots, so each
  state goes to the device it came from; and one with data disks is never accepted.
-/

namespace Amber.Devices

open Failing VirtioDevice Snapshot TornWrites List

/-! ## The bus -/

def virtioMmioBase : ℕ := 0x0c000000
def virtioMmioStride : ℕ := 0x200
def gicSpiBase : ℕ := 32
def virtioSpiBase : ℕ := 2

/-- The five devices there are. -/
inductive DeviceKind
  | blk
  | rng
  | net
  | vsock
  | balloon
  deriving DecidableEq

/-- `device_id` of each. -/
def DeviceKind.id : DeviceKind → ℕ
  | .blk => 2
  | .rng => 4
  | .net => 1
  | .vsock => 19
  | .balloon => 5

theorem DeviceKind.id_injective : Function.Injective DeviceKind.id := by
  intro k k' h
  cases k <;> cases k' <;> first | rfl | exact absurd h (by decide)

/-- A device on the bus. -/
structure VirtioDev (σ : Type) where
  base : ℕ
  size : ℕ
  intid : ℕ
  mmio : VirtioMmio σ

/-- What a device is and where: its id, its window and its interrupt. -/
structure Slot where
  id : ℕ
  base : ℕ
  size : ℕ
  intid : ℕ
  deriving DecidableEq

/-- The slot of the `index`-th device if it has the id `id`. -/
def Slot.at (index id : ℕ) : Slot :=
  ⟨id, (virtioMmioBase + index * virtioMmioStride) % 2 ^ 64, virtioMmioStride,
    (gicSpiBase + virtioSpiBase + index) % 2 ^ 32⟩

section

variable {σ π ν : Type} [VirtioDevice σ] (ks : List DeviceKind)

def VirtioDev.new (index : ℕ) (dev : σ) : VirtioDev σ where
  base := (virtioMmioBase + index * virtioMmioStride) % 2 ^ 64
  size := virtioMmioStride
  intid := (gicSpiBase + virtioSpiBase + index) % 2 ^ 32
  mmio := VirtioMmio.new dev

def VirtioDev.slot (d : VirtioDev σ) : Slot := ⟨deviceId d.mmio.dev, d.base, d.size, d.intid⟩

/-- `let i = virtio.len(); virtio.push(VirtioDev::new(i, dev))`. -/
def push (virtio : List (VirtioDev σ)) (dev : σ) : List (VirtioDev σ) :=
  virtio ++ [VirtioDev.new virtio.length dev]

/-- The slots of devices of these kinds pushed in this order. -/
def layout (ks : List DeviceKind) : List Slot := ks.mapIdx fun i k => Slot.at i k.id

@[simp] theorem length_layout : (layout ks).length = ks.length :=
  length_mapIdx

theorem layout_concat (k : DeviceKind) :
    layout (ks ++ [k]) = layout ks ++ [Slot.at ks.length k.id] := mapIdx_concat

theorem ids_layout :
    (layout ks).map Slot.id = ks.map DeviceKind.id := by
  induction ks using reverseRecOn with
  | nil => rfl
  | append_singleton ks k ih =>
    rw [layout_concat, map_append, map_append, ih]
    rfl

/-- The devices of the list are of these kinds, each in its own slot. -/
def Laid (virtio : List (VirtioDev σ)) (ks : List DeviceKind) : Prop :=
  virtio.map VirtioDev.slot = layout ks

variable {virtio virtio' : List (VirtioDev σ)} {ks : List DeviceKind}

theorem Laid.length_eq (h : Laid virtio ks) : virtio.length = ks.length := by
  rw [← length_map VirtioDev.slot, h, length_layout]

theorem Laid.push {dev : σ} {k : DeviceKind} (h : Laid virtio ks) (hdev : deviceId dev = k.id) :
    Laid (push virtio dev) (ks ++ [k]) := by
  have hslot : (VirtioDev.new virtio.length dev).slot = Slot.at ks.length k.id := by
    rw [← h.length_eq, ← hdev]
    rfl
  rw [Laid, Devices.push, map_append, h, layout_concat]
  exact congrArg (_ ++ [·]) hslot

/-! ## Building the list -/

/-- Paths, and their conversions with strings. -/
class HostPath (π : Type) where
  ofString : String → π
  toStringLossy : π → String

/-- What the host gives when a device is opened.  `device_id` of each type is a constant. -/
structure Host (σ π ν : Type) [VirtioDevice σ] where
  openBlk : π → Except String σ
  openWritable : π → Except String σ
  openRng : Except String σ
  netDevice : ν → σ
  /-- `UdsBackend::new`, and the device over it. -/
  bindVsock : π → Option σ
  balloon : σ
  id_openBlk : ∀ p d, openBlk p = .ok d → deviceId d = DeviceKind.blk.id
  id_openWritable : ∀ p d, openWritable p = .ok d → deviceId d = DeviceKind.blk.id
  id_openRng : ∀ d, openRng = .ok d → deviceId d = DeviceKind.rng.id
  id_netDevice : ∀ b, deviceId (netDevice b) = DeviceKind.net.id
  id_bindVsock : ∀ p d, bindVsock p = some d → deviceId d = DeviceKind.vsock.id
  id_balloon : deviceId balloon = DeviceKind.balloon.id

/-- The part of the configuration that decides the devices. -/
structure VmConfig (π : Type) where
  disk : Option π
  dataDisks : List (π × Bool)
  vsock : Option π

structure Vm (σ π : Type) where
  virtio : List (VirtioDev σ)
  diskPath : Option π
  restore : Option Loaded

variable (host : Host σ π ν)

/-- The root disk, if there is one. -/
def openRoot (disk : Option π) : Except String (List (VirtioDev σ)) :=
  match disk with
  | some path => do
    let dev ← host.openBlk path
    .ok (push [] dev)
  | none => .ok []

def openDisk (path : π) (writable : Bool) : Except String σ :=
  if writable then host.openWritable path else host.openBlk path

/-- The loop over `data_disks`. -/
def openDisks : List (VirtioDev σ) → List (π × Bool) → Except String (List (VirtioDev σ))
  | virtio, [] => .ok virtio
  | virtio, (path, writable) :: disks => do
    let dev ← openDisk host path writable
    openDisks (push virtio dev) disks

def openRng (virtio : List (VirtioDev σ)) : Except String (List (VirtioDev σ)) := do
  let dev ← host.openRng
  .ok (push virtio dev)

/-- A network device, if there is a backend. -/
def openNet (virtio : List (VirtioDev σ)) (net : Option ν) : List (VirtioDev σ) :=
  match net with
  | some backend => push virtio (host.netDevice backend)
  | none => virtio

/-- The vsock device, if a path was given and can be bound; otherwise there is only a warning. -/
def openVsock (virtio : List (VirtioDev σ)) (vsock : Option π) : List (VirtioDev σ) :=
  match vsock.bind host.bindVsock with
  | some dev => push virtio dev
  | none => virtio

/-- `Vm::prepare`. -/
def prepare (cfg : VmConfig π) (net : Option ν) : Except String (Vm σ π) := do
  let virtio ← openRoot host cfg.disk
  let virtio ← openDisks host virtio cfg.dataDisks
  let virtio ← openRng host virtio
  let virtio := openVsock host (openNet host virtio net) cfg.vsock
  .ok ⟨push virtio host.balloon, cfg.disk, none⟩

/-- A network device if the snapshot had one. -/
def restoreNet (virtio : List (VirtioDev σ)) (had : Bool) (net : Option ν) :
    Except String (List (VirtioDev σ)) :=
  if had then
    match net with
    | some backend => .ok (push virtio (host.netDevice backend))
    | none => .error "snapshot has a net device but no backend was provided"
  else .ok virtio

variable [HostPath π]

/-- A vsock device if the snapshot had one. -/
def restoreVsock (virtio : List (VirtioDev σ)) (had : Bool) (vsock : Option π) :
    Except String (List (VirtioDev σ)) :=
  if had then
    match vsock with
    | none => .error "snapshot has a vsock device but no AMBER_VSOCK path was given"
    | some path =>
      match host.bindVsock path with
      | some dev => .ok (push virtio dev)
      | none => .error ("vsock: cannot bind " ++ HostPath.toStringLossy path ++ " on restore")
  else .ok virtio

/-- `Vm::restore_from` on a directory; `unreadable` is the error if it cannot be read. -/
def restoreFrom (codecs : Codecs) (unreadable : String) (dir : Dir) (net : Option ν)
    (vsock : Option π) : Except String (Vm σ π) :=
  match Snapshot.restore codecs dir with
  | none => .error unreadable
  | some (loaded, _) => do
    let virtio ← openRoot host (loaded.info.disk.map HostPath.ofString)
    let virtio ← openRng host virtio
    let virtio ← restoreNet host virtio loaded.info.net net
    let virtio ← restoreVsock host virtio loaded.info.vsock vsock
    let virtio := push virtio host.balloon
    let rebuilt := virtio.length
    let captured := loaded.dev.virtio.length
    if rebuilt ≠ captured then
      .error (s!"device-set mismatch on restore: rebuilt {rebuilt} virtio devices, " ++
        s!"snapshot captured {captured}")
    else .ok ⟨virtio, loaded.info.disk.map HostPath.ofString, some loaded⟩

/-- What `run` captures of the devices `virtio`; `c` has the rest: RAM, vcpus, GIC and UART. -/
def captureDevices (virtio : List (VirtioDev σ)) (diskPath : Option π) (c : Capture) : Capture :=
  { c with
    disk := diskPath.map HostPath.toStringLossy
    dev := ⟨c.dev.pl011, virtio.map fun d => d.mmio.capture⟩
    net := virtio.any fun d => deviceId d.mmio.dev == 1
    vsock := virtio.any fun d => deviceId d.mmio.dev == 19 }

/-! ## What the lists hold -/

/-- A device that may be there. -/
def optional (has : Bool) (k : DeviceKind) : List DeviceKind := if has then [k] else []

/-- The kinds of the devices, by what the VM has. -/
def kinds (disk : Bool) (data : ℕ) (net vsock : Bool) : List DeviceKind :=
  optional disk .blk ++ List.replicate data DeviceKind.blk ++ [DeviceKind.rng] ++
    optional net .net ++ optional vsock .vsock ++ [DeviceKind.balloon]

variable {host}

section

omit [HostPath π]

theorem openRoot_spec {disk : Option π} (h : openRoot host disk = .ok virtio) :
    Laid virtio (optional disk.isSome .blk) := by
  cases disk with
  | none =>
    cases h
    rfl
  | some path =>
    obtain ⟨dev, hdev, h⟩ := bind_eq_ok h
    cases h
    exact Laid.push (show Laid [] [] from rfl) (host.id_openBlk path dev hdev)

variable (hl : Laid virtio ks)

include hl

theorem openDisks_spec {disks : List (π × Bool)} (h : openDisks host virtio disks = .ok virtio') :
    Laid virtio' (ks ++ List.replicate disks.length .blk) := by
  induction disks generalizing virtio ks with
  | nil =>
    cases h
    simpa using hl
  | cons disk disks ih =>
    obtain ⟨path, writable⟩ := disk
    obtain ⟨dev, hdev, h⟩ := bind_eq_ok h
    have hid : deviceId dev = DeviceKind.blk.id := by
      unfold openDisk at hdev
      split_ifs at hdev
      · exact host.id_openWritable path dev hdev
      · exact host.id_openBlk path dev hdev
    have hrest := ih (hl.push hid) h
    rwa [append_assoc, singleton_append, ← replicate_succ] at hrest

theorem openRng_spec (h : openRng host virtio = .ok virtio') :
    Laid virtio' (ks ++ [.rng]) := by
  obtain ⟨dev, hdev, h⟩ := bind_eq_ok h
  cases h
  exact hl.push (host.id_openRng dev hdev)

theorem openNet_spec (net : Option ν) :
    Laid (openNet host virtio net) (ks ++ optional net.isSome .net) := by
  cases net with
  | none => simpa [openNet, optional] using hl
  | some backend => exact hl.push (host.id_netDevice backend)

theorem openVsock_spec (vsock : Option π) :
    Laid (openVsock host virtio vsock)
      (ks ++ optional (vsock.bind host.bindVsock).isSome .vsock) := by
  unfold openVsock
  cases hbind : vsock.bind host.bindVsock with
  | none => simpa [optional] using hl
  | some dev =>
    obtain ⟨path, -, hdev⟩ := Option.bind_eq_some_iff.1 hbind
    exact hl.push (host.id_bindVsock path dev hdev)

omit hl

/-- **The devices `prepare` puts on the bus.** -/
theorem prepare_spec {cfg : VmConfig π} {net : Option ν} {vm : Vm σ π}
    (h : prepare host cfg net = .ok vm) :
    vm.diskPath = cfg.disk ∧ Laid vm.virtio (kinds cfg.disk.isSome cfg.dataDisks.length net.isSome
      (cfg.vsock.bind host.bindVsock).isSome) := by
  obtain ⟨v₁, h₁, h⟩ := bind_eq_ok h
  obtain ⟨v₂, h₂, h⟩ := bind_eq_ok h
  obtain ⟨v₃, h₃, h⟩ := bind_eq_ok h
  cases h
  have hrng := openRng_spec (openDisks_spec (openRoot_spec h₁) h₂) h₃
  exact ⟨rfl, (openVsock_spec (openNet_spec hrng net) cfg.vsock).push host.id_balloon⟩

theorem restoreNet_spec {had : Bool} {net : Option ν} (hl : Laid virtio ks)
    (h : restoreNet host virtio had net = .ok virtio') :
    Laid virtio' (ks ++ optional had .net) := by
  unfold restoreNet at h
  split_ifs at h with hhad
  · rw [optional, if_pos hhad]
    cases net with
    | none => cases h
    | some backend =>
      cases h
      exact hl.push (host.id_netDevice backend)
  · cases h
    rwa [optional, if_neg hhad, append_nil]

end

theorem restoreVsock_spec {had : Bool} {vsock : Option π} (hl : Laid virtio ks)
    (h : restoreVsock host virtio had vsock = .ok virtio') :
    Laid virtio' (ks ++ optional had .vsock) := by
  unfold restoreVsock at h
  split_ifs at h with hhad
  · rw [optional, if_pos hhad]
    cases vsock with
    | none => cases h
    | some path =>
      dsimp only at h
      split at h
      · rename_i dev hdev
        cases h
        exact hl.push (host.id_bindVsock path dev hdev)
      · cases h
  · cases h
    rwa [optional, if_neg hhad, append_nil]

/-- **The devices `restore_from` puts on the bus**, and that they are as many as were captured. -/
theorem restoreFrom_spec {codecs : Codecs} {unreadable : String} {dir : Dir} {net : Option ν}
    {vsock : Option π} {vm : Vm σ π} {c : Capture} (hc : Holds codecs dir c)
    (h : restoreFrom host codecs unreadable dir net vsock = .ok vm) :
    Laid vm.virtio (kinds c.disk.isSome 0 c.net c.vsock) ∧ vm.restore = some c.image.1 ∧
      vm.virtio.length = c.dev.virtio.length := by
  unfold restoreFrom at h
  rw [restore_holds hc] at h
  obtain ⟨v₁, h₁, h⟩ := bind_eq_ok h
  obtain ⟨v₂, h₂, h⟩ := bind_eq_ok h
  obtain ⟨v₃, h₃, h⟩ := bind_eq_ok h
  obtain ⟨v₄, h₄, h⟩ := bind_eq_ok h
  dsimp only at h
  split_ifs at h with hlen
  cases h
  have hroot := openRoot_spec h₁
  rw [Option.isSome_map] at hroot
  have hnet := restoreNet_spec (openRng_spec hroot h₂) h₃
  have hall := (restoreVsock_spec hnet h₄).push host.id_balloon
  refine ⟨?_, rfl, not_not.1 hlen⟩
  rw [kinds, replicate_zero, append_nil]
  exact hall

end

/-! ## The devices in use -/

section Use

variable {σ : Type} [VirtioDevice σ]

/-- A property of devices that nothing the transport does to a device takes away. -/
structure Kept (P : σ → Prop) : Prop where
  handle : ∀ dev qidx ram bufs, P dev → P (handle dev qidx ram bufs).1
  ackConfig : ∀ dev, P dev → P (ackConfig dev)
  pollRx : ∀ dev cap, P dev → P (pollRx dev cap).1

namespace Kept

variable {P : σ → Prop} {m : VirtioMmio σ} (hP : Kept P)

include hP

theorem process (qidx : ℕ) (h : P m.dev) : P (m.process qidx).1.dev := by
  obtain heq | ⟨ram, q, -, -, heq⟩ := m.process_cases qidx
  · rw [heq]
    exact h
  · rw [heq]
    exact processLoop_keeps (fun dev => hP.handle dev qidx) _ _ ram q h

theorem write (offset value : ℕ) (h : P m.dev) : P (m.write offset value).dev := by
  refine VirtioMmio.write_rule (P := fun m' => P m'.dev) m offset value (fun _ _ _ => h)
    (fun _ _ => h) (fun qidx => hP.process qidx h) ?ack h
  rintro irq dev (rfl | rfl)
  · exact h
  · exact hP.ackConfig _ h

theorem pumpRx {turns : ℕ} {out : VirtioMmio σ × List UsedElem} (h : P m.dev)
    (hout : m.pumpRx turns = some out) : P out.1.dev := by
  obtain heq | heq | ⟨ram, rxq, q, q', es, r, -, -, hr, heq⟩ := VirtioMmio.pumpRx_cases hout
  · rw [heq]
    exact h
  · rw [heq]
    exact h
  · rw [heq]
    exact pumpLoop_keeps hP.pollRx turns ram q' h hr

end Kept

/-- `device_id` of a device is the same all its life. -/
class FixedKind (σ : Type) [VirtioDevice σ] : Prop where
  kept : ∀ id, Kept fun dev : σ => deviceId dev = id

/-- What happens to a transport while the VM runs: it is given RAM, its registers are written,
frames are pumped in, and the host side of its device changes (a balloon target, a socket). -/
inductive Access : VirtioMmio σ → VirtioMmio σ → Prop
  | attach (m : VirtioMmio σ) (ram : GuestRam) : Access m (m.attach ram)
  | write (m : VirtioMmio σ) (offset value : ℕ) : Access m (m.write offset value)
  | pump (m : VirtioMmio σ) {turns : ℕ} {out : VirtioMmio σ × List UsedElem}
    (hout : m.pumpRx turns = some out) : Access m out.1
  | outside (m : VirtioMmio σ) (dev : σ) (hdev : deviceId dev = deviceId m.dev) :
    Access m { m with dev }

theorem Access.deviceId_eq [FixedKind σ] {m m' : VirtioMmio σ} (h : Access m m') :
    deviceId m'.dev = deviceId m.dev := by
  have hkept : Kept fun dev : σ => deviceId dev = deviceId m.dev := FixedKind.kept _
  cases h with
  | attach ram => rfl
  | write offset value => exact hkept.write offset value rfl
  | pump hout => exact hkept.pumpRx rfl hout
  | outside dev hdev => exact hdev

/-- One device of the bus is accessed. -/
def BusStep (virtio virtio' : List (VirtioDev σ)) : Prop :=
  ∃ i d m, virtio[i]? = some d ∧ Access d.mmio m ∧ virtio' = virtio.set i { d with mmio := m }

theorem slots_of_step [FixedKind σ] {virtio virtio' : List (VirtioDev σ)}
    (h : BusStep virtio virtio') : virtio'.map VirtioDev.slot = virtio.map VirtioDev.slot := by
  obtain ⟨i, d, m, hd, hacc, rfl⟩ := h
  have hslot : VirtioDev.slot { d with mmio := m } = d.slot := by
    rw [VirtioDev.slot, VirtioDev.slot, hacc.deviceId_eq]
  have hi : (virtio.map VirtioDev.slot)[i]? = some d.slot := by
    rw [getElem?_map, hd]
    rfl
  rw [map_set, hslot]
  obtain ⟨hlt, heq⟩ := List.getElem?_eq_some_iff.1 hi
  rw [← heq, set_getElem_self]

/-- **A run of the VM leaves every device in its slot.** -/
theorem slots_of_run [FixedKind σ] {virtio virtio' : List (VirtioDev σ)}
    (h : Relation.ReflTransGen BusStep virtio virtio') :
    virtio'.map VirtioDev.slot = virtio.map VirtioDev.slot := by
  induction h with
  | refl => rfl
  | tail _ hstep ih => exact (slots_of_step hstep).trans ih

/-! ## Rebuilt as captured -/

theorem any_id {virtio : List (VirtioDev σ)} {ks : List DeviceKind} (h : Laid virtio ks)
    (k : DeviceKind) : (virtio.any fun d => deviceId d.mmio.dev == k.id) = decide (k ∈ ks) := by
  have hids : virtio.map (fun d => deviceId d.mmio.dev) = ks.map DeviceKind.id := by
    rw [← ids_layout, ← h, map_map]
    rfl
  have hany : (virtio.any fun d => deviceId d.mmio.dev == k.id) =
      (virtio.map fun d => deviceId d.mmio.dev).any (· == k.id) := by
    rw [any_map]
    rfl
  rw [hany, hids, Bool.eq_iff_iff, decide_eq_true_iff, any_eq_true]
  constructor
  · rintro ⟨id, hid, heq⟩
    obtain ⟨k', hk', rfl⟩ := mem_map.1 hid
    rwa [← DeviceKind.id_injective (eq_of_beq heq)]
  · intro hk
    exact ⟨k.id, mem_map_of_mem hk, beq_self_eq_true _⟩

theorem net_mem_kinds (disk net vsock : Bool) (data : ℕ) :
    decide (DeviceKind.net ∈ kinds disk data net vsock) = net := by
  cases disk <;> cases net <;> cases vsock <;> simp [kinds, optional, mem_replicate]

theorem vsock_mem_kinds (disk net vsock : Bool) (data : ℕ) :
    decide (DeviceKind.vsock ∈ kinds disk data net vsock) = vsock := by
  cases disk <;> cases net <;> cases vsock <;> simp [kinds, optional, mem_replicate]

theorem length_kinds (disk net vsock : Bool) (data : ℕ) :
    (kinds disk data net vsock).length = (kinds disk 0 net vsock).length + data := by
  simp only [kinds, length_append, length_replicate]
  omega

/-- The zip of devices that match with captured states pairs each with its own. -/
theorem zip_captured {vs virtio : List (VirtioDev σ)}
    (h : vs.map VirtioDev.slot = virtio.map VirtioDev.slot) :
    List.Forall₂ (fun pair captured => pair.1.slot = captured.slot ∧
      pair.2 = captured.mmio.capture) (vs.zip (virtio.map fun d => d.mmio.capture)) virtio := by
  induction vs generalizing virtio with
  | nil =>
    rw [map_eq_nil_iff.1 h.symm]
    exact .nil
  | cons v vs ih =>
    cases virtio with
    | nil => cases h
    | cons d virtio =>
      obtain ⟨hslot, hrest⟩ := cons.inj h
      exact .cons ⟨hslot, rfl⟩ (ih hrest)

end Use

variable {σ π ν : Type} [VirtioDevice σ] [FixedKind σ] [HostPath π]

/-- **Each captured state is restored into the device it came from.**  A VM is prepared for some
configuration and runs; its devices are captured, and a directory holds the capture.  If
`restore_from` accepts the directory, the devices it rebuilds have the ids, windows and interrupts
of the captured ones, position by position, and `run` pairs each with its own state.  A snapshot of
a VM with data disks is refused. -/
theorem restore_aligned (host₀ host : Host σ π ν) (cfg : VmConfig π) (net₀ net : Option ν)
    (vsock : Option π) (vm₀ : Vm σ π) (virtio : List (VirtioDev σ)) (c : Capture)
    (codecs : Codecs) (unreadable : String) (dir : Dir)
    (hprep : prepare host₀ cfg net₀ = .ok vm₀)
    (hrun : Relation.ReflTransGen BusStep vm₀.virtio virtio)
    (hdir : Holds codecs dir (captureDevices virtio vm₀.diskPath c)) :
    (∀ vm, restoreFrom host codecs unreadable dir net vsock = .ok vm →
      vm.virtio.map VirtioDev.slot = virtio.map VirtioDev.slot ∧
      ∃ loaded, vm.restore = some loaded ∧
        List.Forall₂ (fun pair captured => pair.1.slot = captured.slot ∧
          pair.2 = captured.mmio.capture) (vm.virtio.zip loaded.dev.virtio) virtio) ∧
    (cfg.dataDisks ≠ [] →
      ∃ err, restoreFrom host codecs unreadable dir net vsock = .error err) := by
  obtain ⟨hdisk, hlaid⟩ := prepare_spec hprep
  rw [Laid, ← slots_of_run hrun] at hlaid
  set bound := (cfg.vsock.bind host₀.bindVsock).isSome
  have hnet : (captureDevices virtio vm₀.diskPath c).net = net₀.isSome :=
    (any_id hlaid .net).trans (net_mem_kinds _ _ _ _)
  have hvsock : (captureDevices virtio vm₀.diskPath c).vsock = bound :=
    (any_id hlaid .vsock).trans (vsock_mem_kinds _ _ _ _)
  have hroot : (captureDevices virtio vm₀.diskPath c).disk.isSome = cfg.disk.isSome := by
    rw [← hdisk]
    exact Option.isSome_map
  -- equal counts leave no room for a data disk
  have key : ∀ vm, restoreFrom host codecs unreadable dir net vsock = .ok vm →
      cfg.dataDisks = [] ∧ vm.virtio.map VirtioDev.slot = virtio.map VirtioDev.slot ∧
        vm.restore = some (captureDevices virtio vm₀.diskPath c).image.1 := by
    intro vm hvm
    obtain ⟨hback, hloaded, hlen⟩ := restoreFrom_spec hdir hvm
    rw [hroot, hnet, hvsock] at hback
    have hcount : (captureDevices virtio vm₀.diskPath c).dev.virtio.length = virtio.length :=
      length_map _
    rw [hcount, Laid.length_eq hlaid, hback.length_eq, length_kinds _ _ _ cfg.dataDisks.length]
      at hlen
    have hnone : cfg.dataDisks = [] := length_eq_zero_iff.1 (by omega)
    rw [hnone] at hlaid
    exact ⟨hnone, hback.trans hlaid.symm, hloaded⟩
  refine ⟨fun vm hvm => ?_, fun hdisks => ?_⟩
  · obtain ⟨-, hslots, hloaded⟩ := key vm hvm
    exact ⟨hslots, _, hloaded, zip_captured hslots⟩
  · cases hvm : restoreFrom host codecs unreadable dir net vsock with
    | error err => exact ⟨err, rfl⟩
    | ok vm => exact absurd (key vm hvm).1 hdisks

/-! A host on which everything can be opened and no device does anything. -/

instance idleDevice : VirtioDevice DeviceKind where
  deviceId := DeviceKind.id
  handle dev _ ram _ := (dev, ram, 0)

instance fixedKind_idle : FixedKind DeviceKind :=
  ⟨fun _ => ⟨fun _ _ _ _ h => h, fun _ h => h, fun _ _ h => h⟩⟩

instance hostPath_string : HostPath String := ⟨id, id⟩

def idleHost : Host DeviceKind String Unit where
  openBlk _ := .ok .blk
  openWritable _ := .ok .blk
  openRng := .ok .rng
  netDevice _ := .net
  bindVsock _ := some .vsock
  balloon := .balloon
  id_openBlk _ _ h := by cases h; rfl
  id_openWritable _ _ h := by cases h; rfl
  id_openRng _ h := by cases h; rfl
  id_netDevice _ := rfl
  id_bindVsock _ _ h := by cases h; rfl
  id_balloon := rfl

def idleConfig : VmConfig String := ⟨some "root.img", [], some "vsock"⟩

/-- With a root disk, a network and a vsock, a snapshot is accepted and rebuilt as it was. -/
theorem restore_aligned_idle : ∃ (codecs : Codecs) (dir : Dir) (c : Capture)
    (vm₀ vm : Vm DeviceKind String), prepare idleHost idleConfig (some ()) = .ok vm₀ ∧
      Holds codecs dir (captureDevices vm₀.virtio vm₀.diskPath c) ∧
      restoreFrom idleHost codecs "unreadable" dir (some ()) (some "vsock") = .ok vm ∧
      vm.virtio.map VirtioDev.slot = vm₀.virtio.map VirtioDev.slot := by
  obtain ⟨codecs⟩ := codecs_nonempty
  obtain ⟨vm₀, hprep⟩ : ∃ vm₀, prepare idleHost idleConfig (some ()) = .ok vm₀ := ⟨_, rfl⟩
  let blank : Capture :=
    { mem := ⟨0, replicate 64 0⟩
      cpu := ⟨[], 0, 0, 0, 0, 0, 0, [], [], []⟩
      cpus := []
      gic := []
      disk := none
      gicKind := none
      dev := .default
      net := false
      vsock := false
      kernel_le := by decide }
  let c := captureDevices vm₀.virtio vm₀.diskPath blank
  let dir := (write codecs .empty c (c.files codecs).length ⟨"", none⟩).1
  have hdir : Holds codecs dir c := writeFiles_all (files_nodup codecs c) le_rfl
  obtain ⟨vm, hvm⟩ : ∃ vm, restoreFrom idleHost codecs "unreadable" dir (some ())
      (some "vsock") = .ok vm := by
    unfold restoreFrom
    rw [restore_holds hdir]
    cases hprep
    exact ⟨_, rfl⟩
  have haligned := restore_aligned idleHost idleHost idleConfig (some ()) (some ()) (some "vsock")
    vm₀ vm₀.virtio blank codecs "unreadable" dir hprep .refl hdir
  exact ⟨codecs, dir, blank, vm₀, vm, hprep, hdir, hvm, (haligned.1 vm hvm).1⟩

end Amber.Devices
