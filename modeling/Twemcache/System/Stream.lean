import Twemcache.Conn.Framing
import Twemcache.System.Basic

/-!
# What is received was sent

The data block that a connection of the system receives is what its client has sent right behind the
line of the request, and the line is the last one that was dispatched; what other connections do in
between does not matter.

## Main results

* `Control.Framed.block` : where a block stands in the stream.
* `System.block_sent` : where the block that a connection receives stands in the stream of its
  client.
-/

namespace Twemcache

/-- The line of a piece. -/
def Piece.dispatched : Piece → Option (List UInt8)
  | .line l => some l
  | _ => none

theorem dispatched_pieces (log : List Event) :
    log.filterMap Event.dispatched = (pieces log).filterMap Piece.dispatched := by
  unfold pieces
  rw [List.filterMap_filterMap]
  refine List.filterMap_congr fun e _ => ?_
  cases e <;> rfl

/-- The last line that was cut off is the last one that was dispatched. -/
theorem lastLine_pieces {log : List Event} {ps : List Piece} {line : List UInt8}
    (h : pieces log = ps ++ [.line line]) : lastLine log = some line := by
  unfold lastLine
  rw [dispatched_pieces, h, List.filterMap_append]
  exact List.getLast?_concat

/-- A data block is expected behind a line only. -/
theorem cutPiece_before {cfg : Config} {granted : ℕ → Bool} {s rest : List UInt8} {m : ℕ × Expect}
    {p : Piece} {k n : ℕ} (h : cutPiece cfg granted s m = some (p, (k, .block n), rest)) :
    ∃ line, p = .line line := by
  obtain ⟨j, e⟩ := m
  cases e with
  | line =>
    obtain ⟨-, heq⟩ := Option.ite_none_right_eq_some.1 h
    obtain ⟨rfl, -⟩ := Prod.mk.inj (Option.some.inj heq)
    exact ⟨_, rfl⟩
  | block | skip =>
    obtain ⟨-, heq⟩ := Option.ite_none_right_eq_some.1 h
    cases heq
  | nothing => cases h

/-- The data block that is read stands right behind the line that was dispatched last. -/
theorem Control.Framed.block {cfg : Config} {stream : List UInt8} {c : Control}
    (h : c.Framed cfg stream) (hs : c.state = .nread) :
    ∃ ps line, pieces c.log = ps ++ [.line line] ∧
      stream = ps.flatMap Piece.bytes ++ (line ++ [10]) ++ (c.rdata ++ c.unread ++ c.input) := by
  -- the framer is told for which items there was memory
  have hg : Agrees (fun i => ((grants c.log)[i]?).getD true) c.log := by
    intro i ok hi
    dsimp only
    rw [hi, Option.getD_some]
  have hcut := h.cut_block hs hg
  have hstream := (cuts_spec hcut).1
  unfold Control.Cut at hcut
  generalize (grants c.log).length = k at hcut
  rcases List.eq_nil_or_concat (pieces c.log) with hnil | ⟨ps, p, hps⟩
  · rw [hnil] at hcut
    cases hcut
  · rw [List.concat_eq_append] at hps
    rw [hps] at hcut
    obtain ⟨m, rest, -, hlast⟩ := hcut.split
    cases hlast with
    | cons hp hnil =>
      cases hnil
      obtain ⟨line, rfl⟩ := cutPiece_before hp
      refine ⟨ps, line, hps, ?_⟩
      rw [hstream, hps, List.flatMap_append, List.flatMap_singleton]
      rfl

namespace System

variable {cfg : Config} {i now evictOpt : ℕ} {slabs : ℕ → Slab} {items : ItemPtr → Item}
  {set : Settings} {x : Family ℕ Client Commons} {o : Client}
  {ls : List (FamilyLabel ℕ Arrival Act Beat)}
  {C : Family ℕ Client Commons → FamilyLabel ℕ Arrival Act Beat → Family ℕ Client Commons → Prop}

/-- **What a TCP connection receives for an item is what its client has sent behind the request**:
the stream goes on behind the line that was dispatched last with the bytes that the item has got and
with those that are in the read buffer and in the socket. -/
theorem block_sent (h : (system cfg).Path C (init cfg now evictOpt slabs items set) ls x)
    (ho : x.member i = some o) (hstate : o.conn.state = .nread) : ∃ b : Arrival, .enter i b ∈ ls ∧
    (b.udp = false → ∃ (ps : List Piece) (line : List UInt8),
      lastLine o.conn.log = some line ∧ pieces o.conn.log = ps ++ [.line line] ∧
        b.stream = ps.flatMap Piece.bytes ++ (line ++ [10]) ++
            (o.conn.rdata ++ o.conn.rbuf.unread ++ o.input)) := by
  have hall : (system cfg).Path (Family.Allows (fun _ _ _ => True) fun _ _ _ => True)
      (init cfg now evictOpt slabs items set) ls x := by
    refine h.mono fun s l s' _ => ?_
    cases l with
    | enter j b => trivial
    | act j a => exact fun _ _ _ _ => trivial
    | env e => trivial
  obtain ⟨b, hb, g₀, g, hr⟩ := client_reaches (C := Machine.Unguarded) (fun _ _ _ _ _ _ => trivial)
    (fun _ _ _ _ _ _ _ => trivial) hall ho
  refine ⟨b, hb, fun hudp => ?_⟩
  have hopened : (b.client.session g₀).Opened false b.stream := hudp ▸ opened_arrival b g₀
  obtain ⟨ps, line, hps, hstream⟩ := (hopened.framed hr).block hstate
  exact ⟨ps, line, lastLine_pieces hps, hps, hstream⟩

/-- The second `set` of the first connection. -/
theorem block_sent_busy : ∃ b : Arrival, .enter 0 b ∈ busyRun ∧
    (b.udp = false → ∃ (ps : List Piece) (line : List UInt8),
      b.stream = ps.flatMap Piece.bytes ++ (line ++ [10]) ++ (ascii "Y" ++ crlf)) := by
  have hrun :
      ((system roomy).run (fun x l y => decide (Orderly roomy x l y)) small busyRun).isSome =
        true := by
    decide +kernel
  have hmember :
      (busy.member 0).map (fun o => (o.conn.state, o.conn.rdata ++ o.conn.rbuf.unread ++ o.input)) =
      some (.nread, ascii "Y" ++ crlf) := by decide +kernel
  obtain ⟨o, ho, heq⟩ := Option.map_eq_some_iff.1 hmember
  obtain ⟨hstate, hrest⟩ := Prod.mk.inj heq
  obtain ⟨b, hb, hsent⟩ := block_sent (Machine.path_of_run (Machine.run_eq_exec hrun)) ho hstate
  refine ⟨b, hb, fun hudp => ?_⟩
  obtain ⟨ps, line, -, -, hstream⟩ := hsent hudp
  exact ⟨ps, line, hrest ▸ hstream⟩

end System

end Twemcache
