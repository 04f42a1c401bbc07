/-
# Espmod.Socket.Requests — requests that make no sense

`takerequest` serves two commands through one pointer: a datagram header hands it the index of the
receiver, a connect request NULL. A text that is no address and port sets the index to -1, through
whatever pointer there is. So a malformed header is dropped and changes nothing, and a malformed
connect request is a store through NULL; `harmless` says that there is no other fault, for any text,
table and command.
-/
import Espmod.Socket.Feed

namespace Espmod.Socket

open Espmod.Lib.Text

namespace Sockets

/-- The text is an address and a port: `sscanf` finds all five numbers. -/
def wellFormed (msg : Bytes) : Prop := ∃ port, requests msg port

/-- What a request may do: the receiver is back at its first read, an index it has stored is one of the
table, and unless the text is an address and a port the table is as it was. -/
structure Harmless (s : Sockets) (msg : Bytes) (s' : Sockets) : Prop where
  pc : s'.pc = .top
  ind : s'.ind = s.ind ∨ ∀ it ∈ s'.ind, it < s'.fdlist.length
  fdlist : ¬ wellFormed msg → s'.fdlist = s.fdlist

/-- The end of a request. -/
theorem takerequest_harmless (s : Sockets) (room : Nat) (connect : Bool) (msg : Bytes) :
    Harmless s msg (s.takerequest room connect msg) ↔ (connect = true → wellFormed msg) := by
  have hans := s.takerequest_answered room connect msg
  generalize s.takerequest room connect msg = s' at hans
  cases hans with
  | null hmsg => exact ⟨fun h => (nomatch h.pc), fun h => absurd (h rfl).choose_spec (hmsg _)⟩
  | unread _ =>
    exact ⟨fun _ h => (nomatch h), fun _ => ⟨rfl, Or.inr fun _ h => (nomatch h), fun _ => rfl⟩⟩
  | nobody _ _ => exact ⟨fun _ h => (nomatch h), fun _ => ⟨rfl, Or.inl rfl, fun _ => rfl⟩⟩
  | @datagram _ it f _ _ hf _ _ _ =>
    refine ⟨fun _ h => (nomatch h), fun _ => ⟨rfl, Or.inr fun it' hit => ?_, fun _ => rfl⟩⟩
    cases hit
    exact (List.getElem?_eq_some_iff.mp hf).1
  | rejected hmsg => exact ⟨fun _ _ => ⟨_, hmsg⟩, fun _ => ⟨rfl, Or.inl rfl, fun _ => rfl⟩⟩
  | queued hmsg _ _ _ _ _ _ =>
    exact ⟨fun _ _ => ⟨_, hmsg⟩, fun _ => ⟨rfl, Or.inl rfl, fun h => absurd ⟨_, hmsg⟩ h⟩⟩

end Sockets

open Sockets

/-- **A request is harmless** if and only if it is no connect request whose text is not an address and
a port. -/
theorem harmless (s : Sockets) (hpc : s.pc = .top) (room : Nat) (connect : Bool) (body : Bytes)
    (last : UInt8) (htext : RequestText body last) :
    Harmless s ((body ++ [last]).filter (· ≠ chr ' '))
        (s.feed room (0xff :: command connect :: (body ++ [last]))) ↔
      ¬ (connect = true ∧ ¬ wellFormed ((body ++ [last]).filter (· ≠ chr ' '))) := by
  rw [feed_text hpc connect htext, takerequest_harmless]
  constructor
  · exact fun h hbad => hbad.2 (h hbad.1)
  · exact fun h hconnect => by_contra fun hbad => h ⟨hconnect, hbad⟩

/-- The end of a line is no address and port. -/
theorem lf_malformed : ¬ wellFormed [chr '\n'] := by
  rintro ⟨port, a₁, a₂, a₃, a₄, h⟩
  have hscan : scanf fmtRequest (cstr [chr '\n']) = [] := by decide
  rw [hscan] at h
  exact nomatch h

/-- A datagram header without a text, on the table that `fillbuffers` starts with. -/
theorem harmless_header : Harmless boot [chr '\n'] (boot.feed 0 [0xff, chr 's', chr '\n']) :=
  (harmless boot rfl 0 false [] (chr '\n') ⟨by decide, by decide, Or.inl rfl⟩).mpr fun h => nomatch h.1

/-- A connect request without one is a store through NULL. -/
theorem harmful_connect : ¬ Harmless boot [chr '\n'] (boot.feed 0 [0xff, chr 'c', chr '\n']) ∧
    ¬ wellFormed [chr '\n'] :=
  ⟨fun h => absurd h.pc (by decide), lf_malformed⟩

end Espmod.Socket
