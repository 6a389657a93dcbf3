import Mathlib.Data.List.TakeWhile
import Esystem.Core.Utf8

/-!
# The echo server

socket_server.c accepts one connection, sends back what it receives until the
end of the stream, and closes both sockets. To print what it received it decodes
each chunk by itself, before sending it back.

- `serve_eq`: the server echoes the chunks up to the first one that is not valid
  UTF-8.
- `echoes_iff`: a text is echoed exactly when the stream is cut between
  characters.
- `echoes_ascii`: text of one-byte characters, such as the greeting that the
  client sends, is always echoed.
-/

namespace Esystem.EchoServer

/-- `data.decode()`: strict UTF-8, raising `UnicodeDecodeError` (`none`) on
anything else. -/
def decode (data : ByteArray) : Option String :=
  String.fromUTF8? data

/-- What the server has done: what `sendall` has transmitted, what has been
printed, and which of its sockets are closed. -/
structure Server where
  sent : ByteArray
  printed : List String
  connClosed : Bool
  serverClosed : Bool

/-- How the program ends. -/
inductive Exit where
  | finished
  | unicodeDecodeError
  deriving DecidableEq

/-- `while True:`, over what the calls of `conn.recv(1024)` return; after these
the stream has ended and `recv` returns no bytes. -/
def loop : List ByteArray → Server → Exit × Server
  | [], s => (.finished, s)
  | data :: recvs, s =>
    if data.size = 0 then (.finished, s)
    else
      match decode data with
      | none => (.unicodeDecodeError, s)
      | some text =>
        loop recvs { s with printed := s.printed ++ [text], sent := s.sent ++ data }

/-- The program from `accept` on: the loop, then `conn.close()` and
`server_socket.close()`, which an exception skips. -/
def serve (recvs : List ByteArray) : Exit × Server :=
  match loop recvs ⟨ByteArray.empty, [], false, false⟩ with
  | (.finished, s) => (.finished, { s with connClosed := true, serverClosed := true })
  | (.unicodeDecodeError, s) => (.unicodeDecodeError, s)

/-- The server has sent back `stream`, left the loop, and closed both sockets. -/
structure Echoes (stream : ByteArray) (o : Exit × Server) : Prop where
  exit : o.1 = .finished
  sent : o.2.sent = stream
  connClosed : o.2.connClosed = true
  serverClosed : o.2.serverClosed = true

/-- The ways TCP can cut `stream` into results of `recv(1024)`. -/
structure Segments (stream : ByteArray) (recvs : List ByteArray) : Prop where
  nonempty : ∀ data ∈ recvs, data.size ≠ 0
  short : ∀ data ∈ recvs, data.size ≤ 1024
  whole : concat recvs = stream

/-! ## What the loop does -/

theorem decode_eq_none_iff {data : ByteArray} : decode data = none ↔ ¬ data.IsValidUTF8 := by
  unfold decode String.fromUTF8?
  split
  · rename_i h
    simp [h]
  · rename_i h
    simp [h]

/-- A chunk that can be decoded is printed and sent back. -/
theorem loop_cons {data : ByteArray} (hne : data.size ≠ 0) (h : data.IsValidUTF8)
    (recvs : List ByteArray) (s : Server) :
    ∃ text, loop (data :: recvs) s
      = loop recvs { s with printed := s.printed ++ [text], sent := s.sent ++ data } := by
  cases hd : decode data with
  | none => exact absurd h (decode_eq_none_iff.mp hd)
  | some text => exact ⟨text, by rw [loop, if_neg hne, hd]⟩

/-- A chunk that cannot be decoded ends the program. -/
theorem loop_raises {data : ByteArray} {recvs : List ByteArray} (hne : data.size ≠ 0)
    (h : ¬ data.IsValidUTF8) (s : Server) :
    loop (data :: recvs) s = (.unicodeDecodeError, s) := by
  rw [loop, if_neg hne, decode_eq_none_iff.mpr h]

/-- The chunks up to the first one that cannot be decoded. -/
def decodable (recvs : List ByteArray) : List ByteArray :=
  recvs.takeWhile fun data => decide data.IsValidUTF8

theorem decodable_cons {data : ByteArray} (h : data.IsValidUTF8) (recvs : List ByteArray) :
    decodable (data :: recvs) = data :: decodable recvs :=
  List.takeWhile_cons_of_pos (decide_eq_true h)

theorem decodable_cons_of_not {data : ByteArray} (h : ¬ data.IsValidUTF8)
    (recvs : List ByteArray) : decodable (data :: recvs) = [] :=
  List.takeWhile_cons_of_neg (by simpa using h)

/-- The loop sends back the chunks up to the first one that cannot be decoded,
and closes nothing. -/
theorem loop_eq {recvs : List ByteArray} (hne : ∀ data ∈ recvs, data.size ≠ 0) (s : Server) :
    ((loop recvs s).1 = .finished ↔ ∀ data ∈ recvs, data.IsValidUTF8) ∧
    (loop recvs s).2.sent = s.sent ++ concat (decodable recvs) ∧
    (loop recvs s).2.connClosed = s.connClosed ∧
    (loop recvs s).2.serverClosed = s.serverClosed := by
  induction recvs generalizing s with
  | nil => exact ⟨⟨fun _ _ h => absurd h List.not_mem_nil, fun _ => rfl⟩,
      ByteArray.append_empty.symm, rfl, rfl⟩
  | cons data recvs ih =>
    have hdata := hne data List.mem_cons_self
    have ih := ih fun d hd => hne d (List.mem_cons_of_mem data hd)
    by_cases h : data.IsValidUTF8
    · obtain ⟨text, hloop⟩ := loop_cons hdata h recvs s
      obtain ⟨hexit, hsent, hconn, hserver⟩ :=
        ih { s with printed := s.printed ++ [text], sent := s.sent ++ data }
      rw [hloop]
      refine ⟨?_, ?_, hconn, hserver⟩
      · rw [hexit, List.forall_mem_cons, and_iff_right h]
      · rw [hsent, decodable_cons h, ByteArray.append_assoc]
        rfl
    · rw [loop_raises hdata h]
      refine ⟨?_, ?_, rfl, rfl⟩
      · constructor
        · intro hexit
          cases hexit
        · intro hall
          exact absurd (hall data List.mem_cons_self) h
      · rw [decodable_cons_of_not h]
        exact ByteArray.append_empty.symm

/-- The server echoes the chunks up to the first one that is not valid UTF-8;
only if there is none it closes its sockets. -/
theorem serve_eq {recvs : List ByteArray} (hne : ∀ data ∈ recvs, data.size ≠ 0) :
    ((serve recvs).1 = .finished ↔ ∀ data ∈ recvs, data.IsValidUTF8) ∧
    (serve recvs).2.sent = concat (decodable recvs) ∧
    ((serve recvs).2.connClosed = true ↔ (serve recvs).1 = .finished) ∧
    ((serve recvs).2.serverClosed = true ↔ (serve recvs).1 = .finished) := by
  obtain ⟨hexit, hsent, hconn, hserver⟩ := loop_eq hne ⟨ByteArray.empty, [], false, false⟩
  rw [ByteArray.empty_append] at hsent
  unfold serve
  split
  · rename_i s hs
    rw [hs] at hexit hsent
    exact ⟨hexit, hsent, by simp, by simp⟩
  · rename_i s hs
    rw [hs] at hexit hsent hconn hserver
    refine ⟨hexit, hsent, ?_, ?_⟩
    · rw [hconn]
      simp
    · rw [hserver]
      simp

/-- A stream is echoed exactly when each chunk can be decoded. -/
theorem echoes_iff_valid {stream : ByteArray} {recvs : List ByteArray}
    (hcut : Segments stream recvs) :
    Echoes stream (serve recvs) ↔ ∀ data ∈ recvs, data.IsValidUTF8 := by
  obtain ⟨hexit, hsent, hconn, hserver⟩ := serve_eq hcut.nonempty
  constructor
  · intro h
    exact hexit.mp h.exit
  · intro h
    have hfin := hexit.mpr h
    have hall : decodable recvs = recvs :=
      List.takeWhile_eq_self_iff.mpr fun data hd => decide_eq_true (h data hd)
    exact ⟨hfin, by rw [hsent, hall, hcut.whole], hconn.mpr hfin, hserver.mpr hfin⟩

theorem Segments.text {text : String} {recvs : List ByteArray}
    (hcut : Segments text.toUTF8 recvs) : concat recvs = text.toList.utf8Encode := by
  rw [hcut.whole, String.utf8Encode_toList, String.toUTF8_eq_toByteArray]

/-- Text of one-byte characters is echoed whatever the cuts. -/
theorem echoes_ascii {text : String} (h : Ascii text.toList) {recvs : List ByteArray}
    (hcut : Segments text.toUTF8 recvs) : Echoes text.toUTF8 (serve recvs) :=
  (echoes_iff_valid hcut).mpr
    ((forall_isValidUTF8_iff hcut.text).mpr (cutsBetweenChars_of_ascii h hcut.text))

/-- **A text is echoed exactly when the stream is cut between characters.** -/
theorem echoes_iff (text : String) (recvs : List ByteArray)
    (hcut : Segments text.toUTF8 recvs) :
    Echoes text.toUTF8 (serve recvs) ↔ CutsBetweenChars text.toList recvs := by
  rw [echoes_iff_valid hcut]
  exact forall_isValidUTF8_iff hcut.text

/-- `message = "Hello, Server!"`, what socket_clent.c sends. -/
def message : String := "Hello, Server!"

/-- The greeting is echoed, here in two chunks. -/
theorem echoes_message :
    Echoes message.toUTF8 (serve ["Hello, ".toUTF8, "Server!".toUTF8]) := by
  have hcut : Segments message.toUTF8 ["Hello, ".toUTF8, "Server!".toUTF8] :=
    ⟨by decide, by decide, by decide⟩
  exact (echoes_iff message ["Hello, ".toUTF8, "Server!".toUTF8] hcut).mpr
    (cutsBetweenChars_of_ascii (by decide) hcut.text)

/-- The two bytes of `é`, one by one. -/
def splitChar : List ByteArray := [⟨#[0xC3]⟩, ⟨#[0xA9]⟩]

/-- The server raises at the first byte of `é`: nothing is sent back, and both
sockets stay open. -/
theorem drops_splitChar :
    Segments "é".toUTF8 splitChar ∧ (serve splitChar).1 = .unicodeDecodeError ∧
      (serve splitChar).2.sent = ByteArray.empty ∧ (serve splitChar).2.connClosed = false ∧
      (serve splitChar).2.serverClosed = false ∧ ¬ Echoes "é".toUTF8 (serve splitChar) := by
  have hexit : (serve splitChar).1 = .unicodeDecodeError := by decide
  refine ⟨⟨by decide, by decide, by decide⟩, hexit, by decide, by decide, by decide, fun h => ?_⟩
  have hfin := hexit.symm.trans h.exit
  cases hfin

end Esystem.EchoServer
