import Amber.Exec.Channel

/-!
# The exit status of `amber exec`

The status crosses four encodings: the wait status becomes an `i32` in the agent, a frame on the
agent's stream, a reply of the daemon and a byte of the client.  Each hop has its own default
for the abnormal case, and together they decide whether a failure is reported as one.

`ExecRun` is one exec: what became of the command, where the agent's stream and the client's
stream end, and whether the client can print.

* `faithful_iff` — the status is faithful exactly if the command really exited with 0, or none
  of the silent endings happens: the agent is cut off between two frames or in a frame header,
  the command does not exit by itself, the exit frame is short, or the client's stream ends
  cleanly between two frames.
* `killed_reports_success` — a command killed by a signal ends as status 0.
* `output_faithful` — what the client shows is a beginning of what the command printed.
-/

namespace Amber.Exec

open TagFrame Proto List Option

/-! ## How an exec can end -/

/-- An error text of the operating system. -/
abbrev Text := { m : String // m.length ≤ 2 ^ 16 }

/-- What is left of a stream of bytes that is cut, or not. -/
def kept (bytes : List UInt8) : Option ℕ → List UInt8
  | none => bytes
  | some n => bytes.take n

/-- How an exec ends, up to what the daemon writes to the client. -/
inductive Way
  /-- The client does not reach the daemon. -/
  | unreachable
  /-- The daemon closes the connection without a reply. -/
  | dropped
  | refused (message : Text)
  | noAgent
  | sendFailed (message : Text)
  /-- The agent runs the command.  Its stream is cut if the agent or the VM dies. -/
  | agent (chunks : List Chunk) (fate : Fate) (cutoff : Option ℕ) (broken : Bool)
    (proper : ∀ n ∈ cutoff, n < (encodeAll (agentFrames chunks fate)).length)
  /-- The exit frame arrives with too few bytes. -/
  | shortExit (chunks : List Chunk) (fate : Fate) (payload : List UInt8)
    (short : payload.length < 4)

namespace Way

/-- What the daemon meets; nothing if it is not reached. -/
def host : Way → Option Host
  | unreachable => none
  | dropped => some .dropped
  | refused message => some (.refused message)
  | noAgent => some .noAgent
  | sendFailed message => some (.sendFailed (.ofOther message))
  | agent chunks fate cutoff broken _ =>
    some (.connected ⟨kept (encodeAll (agentFrames chunks fate)) cutoff, broken⟩)
  | shortExit chunks _ payload _ =>
    some (.connected ⟨encodeAll (chunks.map Chunk.agentFrame ++ [⟨3, payload⟩]), false⟩)

/-- The frames the daemon writes to the client. -/
def frames (codec : ReplyCodec) (w : Way) : List Frame :=
  match w.host with
  | none => []
  | some host => handleExec codec host

/-- What became of the command, if it was run. -/
def fate? : Way → Option Fate
  | agent _ fate _ _ _ => some fate
  | shortExit _ fate _ _ => some fate
  | _ => none

/-- The code the command really exited with. -/
def exited (w : Way) : Option (Fin 256) :=
  match w.fate? with
  | some (.ended (.exited code)) => some code
  | _ => none

/-- The output that reaches the daemon in whole frames. -/
def outputs : Way → List Chunk
  | agent chunks fate none _ _ => fate.output chunks
  | agent chunks fate (some n) _ _ =>
    (fate.output chunks).take (cut (agentFrames chunks fate) n).1.length
  | shortExit chunks _ _ _ => chunks
  | _ => []

/-- The agent's stream ends without saying how the command did: it is cut between two frames or
in a header, it ends without an exit frame, the command did not exit by itself, or the exit frame
is short. -/
def Silent : Way → Prop
  | agent _ fate none _ _ =>
    fate = .running ∨ ∃ result, fate = .ended result ∧ ∀ code, result ≠ .exited code
  | agent chunks fate (some n) _ _ => (cut (agentFrames chunks fate) n).2.length < 5
  | shortExit _ _ _ _ => True
  | _ => False

/-- The agent's stream arrives whole. -/
def Whole : Way → Prop
  | agent _ _ none _ _ => True
  | _ => False

end Way

/-- One `amber exec`: how it ends on the daemon's side, where the client's stream is cut, if it is,
and which of the client's own writes succeed. -/
structure ExecRun (codec : ReplyCodec) where
  args : List String
  valid : (execArgs args).isSome
  way : Way
  cutoff : Option ℕ
  proper : ∀ n ∈ cutoff, n < (encodeAll (way.frames codec)).length
  broken : Bool
  sink : ℕ → Bool

namespace ExecRun

variable {codec : ReplyCodec}

/-- The stream the client reads. -/
def link (r : ExecRun codec) : Option Source :=
  r.way.host.map fun _ => ⟨kept (encodeAll (r.way.frames codec)) r.cutoff, r.broken⟩

/-- The process status of the client. -/
def status (r : ExecRun codec) : ℕ := cmdExec r.args fun _ _ => exec codec r.sink r.link

/-- The output that reaches the client in whole frames. -/
def received (r : ExecRun codec) : ℕ :=
  match r.cutoff with
  | none => r.way.outputs.length
  | some n => (cut (r.way.outputs.map Chunk.clientFrame) n).1.length

/-- The client can print what it receives. -/
def Printed (r : ExecRun codec) : Prop := ∀ i < r.received, r.sink i = true

/-- The client's stream ends cleanly between two frames, before the reply. -/
def Closed (r : ExecRun codec) : Prop :=
  r.broken = false ∧ (r.way = .dropped ∨ ∃ n, r.cutoff = some n ∧
    (cut (r.way.outputs.map Chunk.clientFrame) n).2 = [] ∧
    n ≤ (encodeAll (r.way.outputs.map Chunk.clientFrame)).length)

/-- Nothing is cut and everything is printed. -/
def Complete (r : ExecRun codec) : Prop := r.way.Whole ∧ r.cutoff = none ∧ r.Printed

local instance neZeroStatus : NeZero 256 := ⟨by decide⟩

/-- The status is 0 only if the command really exited with 0, and it is the exit code of the
command if nothing goes wrong on the way. -/
def Faithful (r : ExecRun codec) : Prop :=
  (r.status = 0 → r.way.exited = some 0) ∧
    ∀ code, r.way.exited = some code → r.Complete → r.status = code % 256

end ExecRun

/-! ## The agent's stream, cut anywhere -/

theorem clampStatus_code (code : Fin 256) : clampStatus (Int32.ofNat code) = code := by
  rw [clampStatus, Int32.toInt_ofNat_of_lt (by omega)]
  omega

variable {payload : List UInt8}

theorem exitCode_short (h : payload.length < 4) : exitCode payload = 0 := by
  rw [exitCode, if_neg (not_le.2 h)]
  decide

theorem agentFrame_le {chunks : List Chunk} {fate : Fate} {f : Frame}
    (h : f ∈ agentFrames chunks fate) : f.payload.length ≤ maxFrame := by
  rcases mem_append.1 h with h | h
  · obtain ⟨c, -, rfl⟩ := mem_map.1 h
    exact c.fits.trans (by decide)
  · obtain ⟨rc, -, rfl⟩ := map_eq_some_iff.1 (mem_toList.1 h)
    exact (length_i32ToLe rc).le.trans (by decide)

variable (chunks : List Chunk)

/-- The agent's output, and an exit frame. -/
theorem relay_last (t : Bool) (h : payload.length ≤ maxFrame) :
    relay ⟨encodeAll (chunks.map Chunk.agentFrame ++ [⟨3, payload⟩]), t⟩ =
      (chunks.map Chunk.clientFrame, .ok (exitCode payload)) := by
  have hbytes : encodeAll [(⟨3, payload⟩ : Frame)] = (Frame.mk 3 payload).encode ++ [] :=
    flatMap_cons
  rw [encodeAll_append, relay_forward, hbytes, relay_exit h, append_nil]

/-- The agent's whole stream. -/
theorem relay_whole (fate : Fate) (t : Bool) :
    relay ⟨encodeAll (agentFrames chunks fate), t⟩ =
      ((fate.output chunks).map Chunk.clientFrame, .ok (fate.rc.getD (-1))) := by
  rw [agentFrames]
  cases fate.rc with
  | none =>
    have htail : relay ⟨encodeAll (Option.map exitFrame none).toList, t⟩ = ([], .ok (-1)) :=
      relay_silent (show 0 < 5 by decide)
    rw [encodeAll_append, relay_forward, htail, append_nil]
    rfl
  | some rc =>
    have hlast := relay_last (fate.output chunks) t ((length_i32ToLe rc).le.trans (by decide))
    rwa [exitCode_i32ToLe] at hlast

/-- The agent's stream cut after `n` bytes. -/
theorem relay_cut (fate : Fate) (t : Bool) {n : ℕ}
    (hn : n < (encodeAll (agentFrames chunks fate)).length) :
    ∃ res, relay ⟨(encodeAll (agentFrames chunks fate)).take n, t⟩ =
        (((fate.output chunks).take (cut (agentFrames chunks fate) n).1.length).map
          Chunk.clientFrame, res) ∧
      (((cut (agentFrames chunks fate) n).2.length < 5 ∧ res = .ok (-1)) ∨
        (5 ≤ (cut (agentFrames chunks fate) n).2.length ∧
          ∃ e, (Reply.error e.message).Small ∧ res = .error e)) := by
  obtain ⟨j, f, m, hj, hwhole, hf, hm, hleft⟩ :=
    cut_map Chunk.agentFrame (fate.output chunks) (fate.rc.map exitFrame) hn
  rw [← agentFrames] at hwhole hf hleft
  have hlen : (cut (agentFrames chunks fate) n).1.length = j := by
    rw [hwhole, length_map, length_take, min_eq_left hj]
  have hleft' : (f.encode.take m).length = m := by
    rw [length_take, min_eq_left hm.le]
  rw [take_encodeAll, hlen, hwhole, relay_forward, hleft, hleft']
  by_cases hsmall : m < 5
  · rw [relay_silent (by rwa [hleft']), append_nil]
    exact ⟨_, rfl, .inl ⟨hsmall, rfl⟩⟩
  · obtain ⟨e, he, htorn⟩ := relay_torn (t := t) (agentFrame_le hf) (not_lt.1 hsmall) hm
    rw [htorn, append_nil]
    exact ⟨_, rfl, .inr ⟨not_lt.1 hsmall, e, he, rfl⟩⟩

/-- The agent's exit frame cut short. -/
theorem relay_shortExit (h : payload.length < 4) :
    relay ⟨encodeAll (chunks.map Chunk.agentFrame ++ [⟨3, payload⟩]), false⟩ =
      (chunks.map Chunk.clientFrame, .ok 0) := by
  rw [relay_last chunks false (h.le.trans (by decide)), exitCode_short h]

/-! ## The reply -/

/-- The status a reply gives. -/
def replyStatus (rep : Reply) : ℕ := resultStatus (replyResult rep)

theorem status_of_no_code {result : WaitResult} (h : ∀ code, result ≠ .exited code) :
    clampStatus ((Fate.ended result).rc.getD (-1)) = 0 := by
  cases result with
  | exited code => exact absurd rfl (h code)
  | signalled _ | failed => exact (show clampStatus (-1) = 0 by decide)

/-- A whole stream of the agent gives status 0 only if the command exited with 0 or the stream
does not say how it did. -/
theorem status_of_loud {fate : Fate} (hrunning : fate ≠ .running)
    (hcode : ∀ result, fate = .ended result → ∃ code, result = .exited code ∧ code ≠ 0) :
    clampStatus (fate.rc.getD (-1)) ≠ 0 := by
  cases fate with
  | noShell => decide
  | running => exact absurd rfl hrunning
  | ended result =>
    obtain ⟨code, rfl, hne⟩ := hcode result rfl
    change clampStatus (Int32.ofNat code) ≠ 0
    rw [clampStatus_code]
    exact fun h => hne (Fin.ext h)

/-- What the daemon writes when it replies: the output that reached it, and a reply that gives
status 0 if the agent's stream ended silently, and the exit code if it arrived whole. -/
theorem Way.frames_eq (codec : ReplyCodec) (w : Way) (hun : w ≠ .unreachable)
    (hdrop : w ≠ .dropped) :
    ∃ rep : Reply, rep.Small ∧
      w.frames codec = w.outputs.map Chunk.clientFrame ++ [replyFrame codec rep] ∧
      (w.Silent → replyStatus rep = 0) ∧
      (¬ w.Silent → w.exited ≠ some 0 → replyStatus rep ≠ 0) ∧
      ∀ code, w.exited = some code → w.Whole → replyStatus rep = code := by
  have herror : ∀ message : String, replyStatus (.error message) ≠ 0 := fun _ => one_ne_zero
  cases w with
  | unreachable => exact absurd rfl hun
  | dropped => exact absurd rfl hdrop
  | refused message | sendFailed message =>
    exact ⟨.error message, message.2, rfl, False.elim, fun _ _ => herror _, nofun⟩
  | noAgent =>
    exact ⟨.error "exec agent did not connect", by decide, rfl, False.elim, fun _ _ => herror _,
      nofun⟩
  | shortExit chunks fate payload short =>
    refine ⟨.exit 0, trivial, ?_, fun _ => by decide, fun h => absurd trivial h,
      fun _ _ => False.elim⟩
    simp only [Way.frames, Way.host, handleExec, relay_shortExit chunks short, Way.outputs]
  | agent chunks fate cutoff broken proper =>
    cases cutoff with
    | none =>
      refine ⟨.exit (fate.rc.getD (-1)), trivial, ?_, ?_, ?_, ?_⟩
      · simp only [Way.frames, Way.host, kept, handleExec, relay_whole, Way.outputs]
      · rintro (rfl | ⟨result, rfl, hno⟩)
        · decide
        · exact status_of_no_code hno
      · intro hloud hex
        refine status_of_loud (fun h => hloud (.inl h)) fun result hfate => ?_
        subst hfate
        by_contra hno
        refine hloud (.inr ⟨result, rfl, fun code hcode => hno ⟨code, hcode, fun h => ?_⟩⟩)
        subst hcode h
        exact hex rfl
      · intro code hcode _
        obtain rfl : fate = .ended (.exited code) := by
          simp only [Way.exited, Way.fate?] at hcode
          split at hcode
          · rename_i heq
            cases hcode
            exact some.inj heq
          · cases hcode
        exact clampStatus_code code
    | some n =>
      obtain ⟨res, hrelay, hres⟩ := relay_cut chunks fate broken (proper n rfl)
      rcases hres with ⟨hsilent, rfl⟩ | ⟨hloud, e, he, rfl⟩
      · refine ⟨.exit (-1), trivial, ?_, fun _ => by decide, fun h => absurd hsilent h,
          fun _ _ => False.elim⟩
        simp only [Way.frames, Way.host, kept, handleExec, hrelay, Way.outputs]
      · refine ⟨.error e.message, he, ?_, fun h => absurd h (not_lt.2 hloud),
          fun _ _ => herror _, fun _ _ => False.elim⟩
        simp only [Way.frames, Way.host, kept, handleExec, hrelay, Way.outputs]

/-! ## The client's stream, cut anywhere -/

section Client

variable (codec : ReplyCodec) (sink : ℕ → Bool) (t : Bool)

/-- The client's stream ends in a frame, or before it. -/
theorem execLoop_torn {f : Frame} (hf : f.payload.length ≤ maxFrame) {m : ℕ}
    (hm : m < f.encode.length) (i : ℕ) :
    ∃ e, execLoop codec sink i ⟨f.encode.take m, t⟩ =
      ([], if m = 0 ∧ t = false then .ok 0 else .error e) := by
  rcases Nat.eq_zero_or_pos m with rfl | hpos
  · cases t with
    | false => exact ⟨.ofOther "", execLoop_silent⟩
    | true =>
      obtain ⟨e, he⟩ := readFrame_broken
      exact ⟨e, execLoop_error he⟩
  · obtain ⟨e, he⟩ := readFrame_torn (t := t) hpos (.inr hf) hm
    exact ⟨e, by rw [execLoop_error he, if_neg fun h => hpos.ne' h.1]⟩

/-- The client's stream cut after `n` bytes. -/
theorem execLoop_cut (outs : List Chunk) {rep : Reply} (hrep : rep.Small) {n : ℕ}
    (hn : n < (encodeAll (outs.map Chunk.clientFrame ++ [replyFrame codec rep])).length) :
    let c := cut (outs.map Chunk.clientFrame) n
    ∃ e shown, shown <+: outs.map Chunk.clientFrame ∧ execLoop codec sink 0
      ⟨(encodeAll (outs.map Chunk.clientFrame ++ [replyFrame codec rep])).take n, t⟩ =
        (shown, if (∀ i < c.1.length, sink i = true) ∧ c.2 = [] ∧
          n ≤ (encodeAll (outs.map Chunk.clientFrame)).length ∧ t = false then .ok 0
        else .error e) := by
  obtain ⟨hfst, hsnd⟩ := cut_concat _ _ hn
  obtain ⟨j, f, m, -, hwhole, hf, hm, hleft⟩ :=
    cut_map Chunk.clientFrame outs (some (replyFrame codec rep)) hn
  have hfits : f.payload.length ≤ maxFrame := by
    rcases mem_append.1 hf with hf | hf
    · obtain ⟨chunk, -, rfl⟩ := mem_map.1 hf
      exact chunk.fits.trans (by decide)
    · rw [mem_singleton.1 hf]
      exact codec.toVec_le rep hrep
  rw [toList_some] at hwhole hleft
  have hclosed : m = 0 ∧ t = false ↔ (cut (outs.map Chunk.clientFrame) n).2 = [] ∧
      n ≤ (encodeAll (outs.map Chunk.clientFrame)).length ∧ t = false := by
    rw [← and_assoc, ← hsnd, hleft]
    simp [Frame.encode]
  obtain ⟨e, he⟩ := execLoop_torn codec sink t hfits hm (0 + (outs.take j).length)
  obtain ⟨shown, hpre, hshow⟩ := execLoop_show (outs.take j) (f.encode.take m) 0
  rw [take_encodeAll, hwhole, hleft, hshow, he]
  simp only [zero_add, ← hfst, hwhole, length_map, ← hclosed]
  have htake := ( take_prefix j outs).map Chunk.clientFrame
  by_cases hprint : ∀ i < (outs.take j).length, sink i = true
  · exact ⟨e, _, htake, by simp only [if_pos hprint, and_iff_right hprint, append_nil]⟩
  · exact ⟨_, shown, hpre.trans htake, by rw [if_neg hprint, if_neg fun h => hprint h.1]⟩

/-- The client's whole stream. -/
theorem execLoop_whole (outs : List Chunk) {rep : Reply} (hrep : rep.Small) :
    ∃ shown, shown <+: outs.map Chunk.clientFrame ∧ execLoop codec sink 0
      ⟨encodeAll (outs.map Chunk.clientFrame ++ [replyFrame codec rep]), t⟩ =
        if ∀ i < outs.length, sink i = true then (outs.map Chunk.clientFrame, replyResult rep)
        else (shown, .error (.ofOther "broken pipe")) := by
  obtain ⟨shown, hpre, hshow⟩ :=
    @execLoop_show codec sink t outs (encodeAll [replyFrame codec rep]) 0
  have hreply : encodeAll [replyFrame codec rep] = (replyFrame codec rep).encode ++ [] :=
    flatMap_cons
  rw [hreply, execLoop_reply hrep, ← hreply, ← encodeAll_append, append_nil] at hshow
  exact ⟨shown, hpre, by simpa using hshow⟩

end Client

/-! ## The status -/

namespace ExecRun

variable {codec : ReplyCodec}

theorem status_eq (r : ExecRun codec) :
    r.status = resultStatus (exec codec r.sink r.link) := by
  obtain ⟨⟨template, cmd⟩, hargs⟩ := isSome_iff_exists.1 r.valid
  rw [status, cmdExec, hargs]

variable {r : ExecRun codec}

theorem status_unreachable (h : r.way = .unreachable) : r.status = 1 := by
  rw [status_eq, link, h]
  rfl

theorem link_of_reached (r : ExecRun codec) (h : r.way ≠ .unreachable) :
    r.link = some ⟨kept (encodeAll (r.way.frames codec)) r.cutoff, r.broken⟩ := by
  rw [link]
  cases hw : r.way with
  | unreachable => exact absurd hw h
  | _ => rfl

theorem link_dropped (h : r.way = .dropped) : r.link = some ⟨[], r.broken⟩ := by
  rw [r.link_of_reached (by rw [h]; exact Way.noConfusion), h]
  cases r.cutoff with
  | none => rfl
  | some n => exact congrArg (some <| Source.mk · r.broken) take_nil

/-- A connection dropped without a reply gives status 0, unless the drop is seen as an error. -/
theorem status_dropped (h : r.way = .dropped) :
    r.status = if r.broken then 1 else 0 := by
  rw [status_eq, link_dropped h, exec]
  cases r.broken with
  | false =>
    rw [execLoop_silent]
    decide
  | true =>
    obtain ⟨e, he⟩ := readFrame_broken
    rw [execLoop_error he]
    rfl

/-- The status when the daemon replies and nothing is cut. -/
theorem status_replied {rep : Reply} (hun : r.way ≠ .unreachable)
    (hrep : rep.Small)
    (hframes : r.way.frames codec =
      r.way.outputs.map Chunk.clientFrame ++ [replyFrame codec rep]) (hcut : r.cutoff = none) :
    (r.Printed → r.status = replyStatus rep) ∧ (¬ r.Printed → r.status = 1) := by
  obtain ⟨shown, -, hshow⟩ := execLoop_whole codec r.sink r.broken r.way.outputs hrep
  rw [status_eq, r.link_of_reached hun, exec, hframes, Printed, received, hcut, kept, hshow]
  constructor
  · intro h
    rw [if_pos h]
    rfl
  · intro h
    rw [if_neg h]
    rfl

/-- The status when the client's stream is cut. -/
theorem status_cut {rep : Reply} (hun : r.way ≠ .unreachable)
    (hdrop : r.way ≠ .dropped) (hrep : rep.Small)
    (hframes : r.way.frames codec =
      r.way.outputs.map Chunk.clientFrame ++ [replyFrame codec rep]) {n : ℕ}
    (hcut : r.cutoff = some n) :
    (r.Printed ∧ r.Closed → r.status = 0) ∧ (¬ (r.Printed ∧ r.Closed) → r.status = 1) := by
  have hn := r.proper n hcut
  rw [hframes] at hn
  have hclosed : r.Closed ↔ (cut (r.way.outputs.map Chunk.clientFrame) n).2 = [] ∧
      n ≤ (encodeAll (r.way.outputs.map Chunk.clientFrame)).length ∧ r.broken = false := by
    rw [Closed, hcut]
    constructor
    · rintro ⟨hb, h | ⟨_, h, h1, h2⟩⟩
      · exact absurd h hdrop
      · obtain rfl := some.inj h
        exact ⟨h1, h2, hb⟩
    · rintro ⟨h1, h2, hb⟩
      exact ⟨hb, .inr ⟨n, rfl, h1, h2⟩⟩
  obtain ⟨e, shown, -, heq⟩ := execLoop_cut codec r.sink r.broken r.way.outputs hrep hn
  rw [status_eq, r.link_of_reached hun, exec, hframes, hclosed, Printed, received, hcut, kept, heq]
  constructor
  · intro h
    rw [if_pos h]
    exact (show clampStatus 0 = 0 by decide)
  · intro h
    rw [if_neg h]
    rfl

/-- A run that ends with status 1 reports no success, and is not one that ends well. -/
theorem faithful_of_one (h : r.status = 1) (hbad : ¬ r.Complete) :
    r.Faithful :=
  ⟨fun h0 => absurd (h0.symm.trans h) (by decide), fun _ _ hc => absurd hc hbad⟩

/-- If the daemon is not reached or drops the connection, only a clean drop goes wrong. -/
theorem faithful_unanswered (h : r.way = .unreachable ∨ r.way = .dropped) :
    r.Faithful ↔ ¬ r.Closed := by
  have hbad : ¬ r.Complete := by
    rintro ⟨hwhole, -⟩
    rcases h with h | h <;> rw [h] at hwhole <;> exact hwhole
  rcases h with h | h
  · refine iff_of_true (faithful_of_one (status_unreachable h) hbad) ?_
    rintro ⟨-, hdrop | ⟨n, hcut, -⟩⟩
    · rw [h] at hdrop
      cases hdrop
    · have hlt := r.proper n hcut
      rw [h] at hlt
      exact absurd hlt (Nat.not_lt_zero n)
  · have hst := status_dropped h
    cases hb : r.broken with
    | true =>
      rw [hb, if_pos rfl] at hst
      exact iff_of_true (faithful_of_one hst hbad) fun hc => absurd (hb.symm.trans hc.1) (by decide)
    | false =>
      rw [hb] at hst
      refine iff_of_false (fun hf => ?_) (not_not_intro ⟨hb, .inl h⟩)
      have hex := hf.1 hst
      rw [h] at hex
      cases hex

/-- If the reply arrives, what goes wrong is that it gives status 0 for a silent end. -/
theorem faithful_replied (hun : r.way ≠ .unreachable)
    (hdrop : r.way ≠ .dropped) (hcut : r.cutoff = none) :
    r.Faithful ↔ r.way.exited = some 0 ∨ ¬ r.Printed ∨ ¬ r.way.Silent := by
  obtain ⟨rep, hrep, hframes, hsilent, hloud, hwhole⟩ := r.way.frames_eq codec hun hdrop
  obtain ⟨hprint, hno⟩ := status_replied hun hrep hframes hcut
  by_cases hp : r.Printed
  · have hst := hprint hp
    constructor
    · intro hf
      by_cases hs : r.way.Silent
      · exact .inl (hf.1 (hst.trans (hsilent hs)))
      · exact .inr (.inr hs)
    · intro h
      refine ⟨fun h0 => ?_, fun code hex hc => ?_⟩
      · by_contra hex
        have hs : ¬ r.way.Silent := (h.resolve_left hex).resolve_left fun hnp => hnp hp
        exact hloud hs hex (hst.symm.trans h0)
      · rw [hst, hwhole code hex hc.1, Nat.mod_eq_of_lt code.2]
  · exact iff_of_true (faithful_of_one (hno hp) fun hc => hp hc.2.2) (.inr (.inl hp))

/-- If the client's stream is cut, what goes wrong is a clean end before the reply. -/
theorem faithful_cut (hun : r.way ≠ .unreachable) (hdrop : r.way ≠ .dropped)
    {n : ℕ} (hcut : r.cutoff = some n) :
    r.Faithful ↔ r.way.exited = some 0 ∨ ¬ r.Printed ∨ ¬ r.Closed := by
  obtain ⟨rep, hrep, hframes, -⟩ := r.way.frames_eq codec hun hdrop
  obtain ⟨hok, herr⟩ := status_cut hun hdrop hrep hframes hcut
  have hbad : ¬ r.Complete := fun hc => absurd (hcut.symm.trans hc.2.1) nofun
  rw [← not_and_or]
  by_cases h : r.Printed ∧ r.Closed
  · constructor
    · exact fun hf => .inl (hf.1 (hok h))
    · intro hex
      exact ⟨fun _ => hex.resolve_right (not_not_intro h), fun _ _ hc => absurd hc hbad⟩
  · exact iff_of_true (faithful_of_one (herr h) hbad) (.inr h)

/-- **When the status of `amber exec` is faithful.**  Exactly if the command really exited with
code 0, or the client could not print, or neither the client's stream nor the agent's stream ended
silently. -/
theorem faithful_iff (codec : ReplyCodec) (r : ExecRun codec) :
    r.Faithful ↔ r.way.exited = some 0 ∨ ¬ r.Printed ∨
      ¬ (r.Closed ∨ (r.cutoff = none ∧ r.way.Silent)) := by
  by_cases hna : r.way = .unreachable ∨ r.way = .dropped
  · have hex : r.way.exited ≠ some 0 := by
      rcases hna with h | h <;> rw [h] <;> exact nofun
    have hsilent : ¬ r.way.Silent := by
      rcases hna with h | h <;> rw [h] <;> exact id
    have hprinted : r.Printed := by
      intro i hi
      have hout : r.way.outputs = [] := by rcases hna with h | h <;> rw [h] <;> rfl
      have hzero : r.received = 0 := by
        rw [received, hout]
        split <;> rfl
      omega
    rw [faithful_unanswered hna]
    simp [hex, hsilent, hprinted]
  obtain ⟨hun, hdrop⟩ := not_or.1 hna
  cases hcut : r.cutoff with
  | none =>
    have hclosed : ¬ r.Closed := by
      rintro ⟨-, h | ⟨n, h, -⟩⟩
      · exact hdrop h
      · exact absurd (hcut.symm.trans h) nofun
    rw [faithful_replied hun hdrop hcut]
    simp [hclosed]
  | some n =>
    have hsome : ¬ (some n = none ∧ r.way.Silent) := fun h => absurd h.1 nofun
    rw [faithful_cut hun hdrop hcut]
    simp

/-- A command killed by SIGKILL; everything it reports arrives. -/
def killed (codec : ReplyCodec) : ExecRun codec where
  args := ["amber", "exec", "/tmp/template", "--", "sleep 100"]
  valid := by decide
  way := .agent [] (.ended (.signalled 9)) none false (fun n hn => by cases hn)
  cutoff := none
  proper := fun n hn => by cases hn
  broken := false
  sink := fun _ => true

theorem killed_status (codec : ReplyCodec) : (killed codec).status = 0 := by
  have hsilent : (killed codec).way.Silent := .inr ⟨_, rfl, nofun⟩
  have hprinted : (killed codec).Printed := fun _ _ => rfl
  obtain ⟨rep, hrep, hframes, hst, -⟩ :=
    (killed codec).way.frames_eq codec nofun nofun
  exact ((status_replied (fun h => by cases h) hrep hframes rfl).1 hprinted).trans (hst hsilent)

/-- **A killed command is reported as a success**, whatever the codec. -/
theorem killed_reports_success :
    Nonempty ReplyCodec ∧ ∀ codec, (killed codec).way.exited = none ∧
      (killed codec).status = 0 ∧ ¬ (killed codec).Faithful := by
  refine ⟨replyCodec_nonempty, fun codec => ⟨rfl, killed_status codec, fun hf => ?_⟩⟩
  cases hf.1 (killed_status codec)

/-! ## The output -/

/-- What the command prints. -/
def printed : Way → List Chunk
  | .agent chunks fate _ _ _ => fate.output chunks
  | .shortExit chunks _ _ _ => chunks
  | _ => []

/-- The frames that the client shows. -/
def shown (r : ExecRun codec) : List Frame :=
  r.link.elim [] fun s => (execLoop codec r.sink 0 s).1

theorem outputs_prefix (w : Way) : w.outputs <+: printed w ∧ (w.Whole → w.outputs = printed w) := by
  cases w with
  | agent chunks fate cutoff broken proper =>
    cases cutoff with
    | none => exact ⟨prefix_rfl, fun _ => rfl⟩
    | some n => exact ⟨ take_prefix _ _, False.elim⟩
  | _ => exact ⟨prefix_rfl, False.elim⟩

/-- **The client shows what the command printed**: a beginning of it, in order, however the exec
ends, and all of it if nothing is cut and the client can print. -/
theorem output_faithful (codec : ReplyCodec) (r : ExecRun codec) :
    r.shown <+: (printed r.way).map Chunk.clientFrame ∧
      (r.Complete → r.shown = (printed r.way).map Chunk.clientFrame) := by
  obtain ⟨hout, hwhole⟩ := outputs_prefix r.way
  have hout := hout.map Chunk.clientFrame
  by_cases hna : r.way = .unreachable ∨ r.way = .dropped
  · have hnone : r.shown = [] := by
      rcases hna with h | h
      · rw [shown, link, h]
        rfl
      · rw [shown, link_dropped h, elim_some, execLoop]
        cases r.broken <;> rfl
    rw [hnone]
    refine ⟨ nil_prefix, fun hc => False.elim ?_⟩
    rcases hna with h | h <;> exact (h ▸ hc.1 :)
  obtain ⟨hun, hdrop⟩ := not_or.1 hna
  obtain ⟨rep, hrep, hframes, -⟩ := r.way.frames_eq codec hun hdrop
  rw [shown, r.link_of_reached hun, elim_some, hframes]
  cases hcut : r.cutoff with
  | none =>
    obtain ⟨shown, hpre, hshow⟩ := execLoop_whole codec r.sink r.broken r.way.outputs hrep
    rw [kept, hshow]
    split_ifs with hprint
    · exact ⟨hout, fun hc => by rw [hwhole hc.1]⟩
    · refine ⟨hpre.trans hout, fun hc => absurd hc.2.2 fun hp => hprint ?_⟩
      rwa [Printed, received, hcut] at hp
  | some n =>
    have hn := r.proper n hcut
    rw [hframes] at hn
    obtain ⟨e, shown, hpre, heq⟩ := execLoop_cut codec r.sink r.broken r.way.outputs hrep hn
    rw [kept, heq]
    exact ⟨hpre.trans hout, fun hc => by cases hcut.symm.trans hc.2.1⟩

/-- A command that prints on both streams, and is killed. -/
def greeting (codec : ReplyCodec) : ExecRun codec :=
  { killed codec with
    way := .agent [⟨.stdout, [104, 105], by decide⟩, ⟨.stderr, [33], by decide⟩]
      (.ended (.signalled 9)) none false fun n hn => by cases hn
    proper := fun n hn => by cases hn }

theorem output_faithful_greeting :
    Nonempty ReplyCodec ∧ ∀ codec,
      (greeting codec).shown = [⟨tagStdout, [104, 105]⟩, ⟨tagStderr, [33]⟩] :=
  ⟨replyCodec_nonempty, fun codec =>
    (output_faithful codec (greeting codec)).2 ⟨trivial, rfl, fun _ _ => rfl⟩⟩

end ExecRun

end Amber.Exec
