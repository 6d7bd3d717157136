import Mathlib.Data.List.Basic

/-!
# Results of non-blocking host I/O

The devices talk to the host through non-blocking sockets and files.  What a call
returns is up to the host, so the model takes each result as an input: a run is a
run for every sequence of results.
-/

namespace Amber

/-- What a read on a host stream returns.  `ok bs` stands for `Ok(n)` with the bytes
that were read; no bytes means the peer has closed its side. -/
inductive IoRead where
  | ok (bs : List UInt8)
  | wouldBlock
  | err
  deriving DecidableEq

/-- What a write on a host stream returns; `ok n` says how many bytes were taken. -/
inductive IoWrite where
  | ok (n : ℕ)
  | wouldBlock
  | err
  deriving DecidableEq

end Amber
