import Amber.Core.Virtqueue
import Amber.Core.VsockRun

/-!
# The receive polls of the vsock device

`poll_rx` is told the capacity of the buffer the guest has posted.  It moves host bytes only
when its queue has run dry, and cuts every RW packet to the capacity of *that* poll; later
polls take packets from the same queue whatever they are offered.

* `Sized` — no queued payload is longer than a bound; control packets carry none, so a guest
  packet never breaks it (`Sized.transmit`), and a refill sets it (`Sized.pump`).
* `poll_fits` — as long as no poll on a queue that still holds packets offers less than the
  poll that refilled it, every frame fits the buffer it is polled for, and `injectOne` copies
  all of it.
* `poll_overruns` — two host reads and a second buffer that is smaller than the first.
-/

namespace Amber

open List

namespace Vsock

/-! ## What is queued -/

namespace VsockDevice

/-- No packet in the receive queue has more than `n` bytes of payload. -/
def Sized (n : ℕ) (d : VsockDevice) : Prop := ∀ p ∈ d.rx, p.payload.length ≤ n

variable {n : ℕ} {d : VsockDevice}

variable (h : d.Sized n) (peers : List (ℕ × ℕ))

include h

theorem Sized.send {ps : List Packet} (hps : ∀ p ∈ ps, p.payload.length ≤ n) :
    (d.send ps).Sized n :=
  forall_mem_append.2 ⟨h, hps⟩

/-- Control packets always fit. -/
theorem Sized.send_control {ps : List Packet} (hps : ∀ p ∈ ps, p.payload = []) :
    (d.send ps).Sized n := by
  refine h.send fun p hp => ?_
  rw [hps p hp]
  exact Nat.zero_le n

theorem Sized.push (c : Conn) (op : ℕ) : (d.push c op).Sized n := by
  refine Sized.send_control (d := { d with conns := d.conns ++ [c], opened := d.opened + 1 }) h ?_
  intro p hp
  rw [mem_singleton.1 hp]
  rfl

/-- A guest packet queues control packets only. -/
theorem Sized.transmit (pkt : List UInt8) (dial : Option ℕ) :
    (d.transmit pkt dial).Sized n := by
  rcases transmit_eq d pkt dial with ⟨heq, -⟩ | ⟨g, -, -, -, heq⟩
  · rwa [heq]
  · rw [heq]
    obtain ⟨ps, hps, -, hrx⟩ := onPacket_drawn d g dial
    have hsend := h.send_control hps.payload
    rw [Sized, hrx]
    exact hsend

theorem Sized.acceptAll : (peers.foldl VsockDevice.accept d).Sized n := by
  refine Runs.invariant_always (I := Sized n) (fun d peer h => ?_) h peers
  exact Sized.push (d := { d with nextHostPort := _ }) h _ opRequest

/-- A refill keeps to its own limit. -/
theorem Sized.pump (io : ℕ → ConnIo) :
    (d.pump n peers io).Sized n := by
  have hmoved : ((peers.foldl VsockDevice.accept d).pumpConns n io).Sized n := by
    refine Sized.send (d := { peers.foldl VsockDevice.accept d with conns := _ })
      (h.acceptAll peers) fun p hp => ?_
    obtain ⟨m, hm, hp⟩ := mem_flatMap.1 hp
    obtain ⟨i, hi, rfl⟩ := mem_mapIdx.1 hm
    exact ((Conn.pump_same_sent n _ (io i)).2 p hp).2.1
  refine Sized.send_control (d := { VsockDevice.pumpConns _ n io with conns := _, gone := _ })
    hmoved fun p hp => ?_
  obtain ⟨c, _, rfl⟩ := mem_map.1 hp
  rfl

end VsockDevice

/-! ## Runs of guest packets and polls -/

/-- The device and, as history, the capacity offered by the poll that last refilled it. -/
structure PollSys where
  dev : VsockDevice
  refill : ℕ

inductive PollStep
  | transmit (pkt : List UInt8) (dial : Option ℕ)
  | poll (maxFrame : ℕ) (peers : List (ℕ × ℕ)) (io : ℕ → ConnIo)

namespace PollSys

open VsockDevice

def start (guestCid : ℕ) : PollSys := ⟨VsockDevice.new guestCid, 0⟩

def step (s : PollSys) : PollStep → PollSys
  | .transmit pkt dial => { s with dev := s.dev.transmit pkt dial }
  | .poll maxFrame peers io =>
    { dev := (s.dev.pollRx maxFrame peers io).1
      refill := if s.dev.rx = [] then maxFrame else s.refill }

/-- The posted buffer has room for a header, and if packets are left over from a refill it is
no smaller than the buffer they were cut for. -/
def Steady (s : PollSys) : PollStep → Prop
  | .transmit _ _ => True
  | .poll maxFrame _ _ => hdrLen ≤ maxFrame ∧ (s.dev.rx ≠ [] → s.refill ≤ maxFrame)

/-- What is queued was cut for the last refill. -/
def Cut (s : PollSys) : Prop := s.dev.Sized (s.refill - hdrLen)

variable {s : PollSys}

/-- The queue a poll takes its packet from. -/
theorem Cut.polled (h : s.Cut) (maxFrame : ℕ) (peers : List (ℕ × ℕ)) (io : ℕ → ConnIo) :
    (if s.dev.rx = [] then s.dev.pump (maxFrame - hdrLen) peers io else s.dev).Sized
      ((if s.dev.rx = [] then maxFrame else s.refill) - hdrLen) := by
  by_cases hrx : s.dev.rx = []
  · rw [if_pos hrx, if_pos hrx]
    refine Sized.pump (fun p hp => ?_) peers io
    rw [hrx] at hp
    exact absurd hp not_mem_nil
  · rw [if_neg hrx, if_neg hrx]
    exact h

theorem step_cut (a : PollStep) (h : s.Cut) : (s.step a).Cut := by
  cases a with
  | transmit pkt dial => exact Sized.transmit h pkt dial
  | poll maxFrame peers io =>
    intro p hp
    exact h.polled maxFrame peers io p (mem_of_mem_tail hp)

/-- **Frames fit the posted buffer.**  In a run in which no poll on a queue that still holds
packets offers less than the poll that refilled it, every frame a poll returns is no longer
than the capacity it was given, and the copy into a posted chain of that capacity places all
of it. -/
theorem poll_fits (guestCid : ℕ) (l : List PollStep) (maxFrame : ℕ) (peers : List (ℕ × ℕ))
    (io : ℕ → ConnIo) (frame : List UInt8)
    (hl : Runs.Each step Steady (start guestCid) (l ++ [.poll maxFrame peers io]))
    (hframe : ((Runs.run step (start guestCid) l).dev.pollRx maxFrame peers io).2 = some frame) :
    frame.length ≤ maxFrame ∧
    ∀ ram q, nextRxCapacity ram q = some maxFrame →
      (fillBufs ram ((nextChain ram q).filter (·.writable)) frame).2 = frame.length := by
  set s := Runs.run step (start guestCid) l
  have hcut : s.Cut := Runs.invariant_always (I := Cut) (fun _ a => step_cut a)
    (fun _ hp => absurd hp not_mem_nil) l
  obtain ⟨hroom, hsteady⟩ : hdrLen ≤ maxFrame ∧ (s.dev.rx ≠ [] → s.refill ≤ maxFrame) :=
    (Runs.each_append.1 hl).2.1
  obtain ⟨p, hp, hpf⟩ := Option.map_eq_some_iff.1 hframe
  have hsize := hcut.polled maxFrame peers io p (mem_of_head? hp)
  have hfits : frame.length ≤ maxFrame := by
    have hlen : frame.length = hdrLen + p.payload.length := by
      rw [← hpf]
      exact length_frame ..
    by_cases hrx : s.dev.rx = []
    · rw [if_pos hrx] at hsize
      omega
    · rw [if_neg hrx] at hsize
      have := hsteady hrx
      omega
  refine ⟨hfits, fun ram q hcap => (fillBufs_snd _ ram _).trans (min_eq_right ?_)⟩
  unfold nextRxCapacity at hcap
  split_ifs at hcap
  rw [Option.some.inj hcap]
  exact hfits

/-- A guest connects and takes the RESPONSE; then the host has `reads` for it. -/
def greeted (first : ℕ) (reads : List IoRead) : List PollStep :=
  [.transmit (VsockSys.guestPkt opRequest []) (some 3), .poll hdrLen [] fun _ => ⟨[], []⟩,
    .poll first [] fun _ => ⟨[], reads⟩]

/-- Two host reads of two bytes and buffers that do not shrink. -/
theorem poll_fits_twoReads :
    let l := greeted 46 [.ok [1, 2], .ok [3, 4]]
    ∃ frame, ((Runs.run step (start 3) l).dev.pollRx 46 [] fun _ => ⟨[], []⟩).2 = some frame ∧
      frame.length = 46 ∧ frame.length ≤ 46 := by
  intro l
  obtain ⟨frame, hframe, hlen⟩ : ∃ frame,
      ((Runs.run step (start 3) l).dev.pollRx 46 [] fun _ => ⟨[], []⟩).2 = some frame ∧
        frame.length = 46 := ⟨_, rfl, by decide⟩
  refine ⟨frame, hframe, hlen, (poll_fits 3 l 46 [] _ frame ?_ hframe).1⟩
  exact ⟨trivial, ⟨by decide, fun _ => Nat.zero_le _⟩, ⟨by decide, fun _ => by decide⟩,
    ⟨by decide, fun _ => by decide⟩, trivial⟩

/-- **A smaller buffer is overrun.**  Two host reads of two bytes are cut for a buffer of 46
bytes; the second packet is then handed out for a buffer of 44. -/
theorem poll_overruns :
    let l := greeted 46 [.ok [1, 2], .ok [3, 4]]
    ∃ frame, ((Runs.run step (start 3) l).dev.pollRx hdrLen [] fun _ => ⟨[], []⟩).2 = some frame ∧
      hdrLen < frame.length :=
  ⟨_, rfl, by decide⟩

end PollSys
end Vsock
end Amber
