import LogosChat.Reasoning.Run
import LogosChat.Reasoning.Sql
import Mathlib.Algebra.Order.Ring.Int

/-!
# The message store

Chat messages in one table of a database that the application opened.  A message is given the next
number of the table when it is recorded, and is read back in pages of a chat.  The store starts no
transaction; what it writes belongs to the one the application has open.
-/

namespace LogosChat.Messages.MessageStore

open Reasoning

inductive Direction where
  | sent
  | received
deriving DecidableEq

def Direction.asI64 : Direction → Int
  | .sent => 0
  | .received => 1

/-- A chat message as the application records it. -/
structure Message where
  chatId : String
  convoId : String
  direction : Direction
  senderAccount : Option String
  senderInstallation : Option String
  messageId : Option String
  timestampMs : Int
  content : Bytes
deriving DecidableEq

structure StoredMessage where
  seq : Int
  message : Message
deriving DecidableEq

/-- The errors of `rusqlite` that the statements here can meet. -/
inductive Error where
  | toSqlConversionFailure
  | integralValueOutOfRange (column : Nat) (value : Int)
  | databaseFull
deriving DecidableEq

/-! ## The table -/

/-- A row of `message_store_messages`. -/
structure MessageRow where
  seq : Int
  chatId : String
  convoId : String
  direction : Int
  senderAccount : Option String
  senderInstallation : Option String
  messageId : Option String
  timestampMs : Int
  content : Bytes
  -- `CHECK (direction IN (0, 1))`
  check : direction = 0 ∨ direction = 1

abbrev MessageTable := AutoTable MessageRow MessageRow.seq

/-- The values that `record` binds, under the key that the table gives. -/
def Message.row (message : Message) (seq : Int) : MessageRow :=
  { seq := seq
    chatId := message.chatId
    convoId := message.convoId
    direction := message.direction.asI64
    senderAccount := message.senderAccount
    senderInstallation := message.senderInstallation
    messageId := message.messageId
    timestampMs := message.timestampMs
    content := message.content
    check := by cases message.direction <;> decide }

namespace MessageRow

/-- `chat_id = ?1`. -/
def inChat (chatId : String) (row : MessageRow) : Truth :=
  (SqlValue.text row.chatId).eq (.text chatId)

/-- `chat_id = ?1 AND seq < ?2`. -/
def below (chatId : String) (before : Int) (row : MessageRow) : Truth :=
  (inChat chatId row).and ((SqlValue.integer row.seq).lt (.integer before))

/-- `seq = ?1`. -/
def atSeq (seq : Int) (row : MessageRow) : Truth :=
  (SqlValue.integer row.seq).eq (.integer seq)

/-- `stored_message`. -/
def storedMessage (row : MessageRow) : Except Error StoredMessage := do
  let direction ← match row.direction with
    | 0 => .ok Direction.sent
    | 1 => .ok Direction.received
    | other => .error (.integralValueOutOfRange 3 other)
  .ok
    { seq := row.seq
      message :=
        { chatId := row.chatId
          convoId := row.convoId
          direction := direction
          senderAccount := row.senderAccount
          senderInstallation := row.senderInstallation
          messageId := row.messageId
          timestampMs := row.timestampMs
          content := row.content } }

end MessageRow

/-! ## The calls -/

/-- Records a message and returns its `seq`, which is the key of the row just inserted. -/
def record (table : MessageTable) (message : Message) : Except Error (Int × MessageTable) :=
  match table.insert message.row fun _ ↦ rfl with
  | some table => .ok (table.sequence, table)
  | none => .error .databaseFull

/-- Up to `limit` messages of a chat, oldest first.  A `usize` is bound as an `i64` or not at all. -/
def messages (table : MessageTable) (chatId : String) (before : Option Int) (limit : Nat) :
    Except Error (List StoredMessage) := do
  if maxRowid < limit then .error .toSqlConversionFailure
  let rows := (orderByDesc MessageRow.seq
    (table.select (MessageRow.below chatId (before.getD maxRowid)))).take limit
  let page ← rows.mapM MessageRow.storedMessage
  .ok page.reverse

/-- How many messages a chat holds. -/
def count (table : MessageTable) (chatId : String) : Nat :=
  (table.select (MessageRow.inChat chatId)).length

/-- Deletes one message.  `false` when no message has that `seq`. -/
def delete (table : MessageTable) (seq : Int) : Bool × MessageTable :=
  (0 < (table.select (MessageRow.atSeq seq)).length, table.delete (MessageRow.atSeq seq))

/-- Deletes every message of a chat and returns how many there were. -/
def deleteChat (table : MessageTable) (chatId : String) : Nat × MessageTable :=
  ((table.select (MessageRow.inChat chatId)).length, table.delete (MessageRow.inChat chatId))

theorem record_eq_ok {table table' : MessageTable} {message : Message} {seq : Int}
    (h : record table message = .ok (seq, table')) :
    table.sequence < maxRowid ∧ seq = table.sequence + 1 ∧ table'.sequence = seq ∧
      table'.rows = table.rows ++ [message.row seq] := by
  unfold record at h
  split at h
  case h_1 inserted hinsert =>
    cases h
    obtain ⟨hroom, hseq, hrows⟩ := AutoTable.insert_eq_some hinsert
    exact ⟨hroom, hseq, rfl, hrows⟩
  case h_2 => cases h

theorem record_of_lt {table : MessageTable} (h : table.sequence < maxRowid) (message : Message) :
    ∃ seq table', record table message = .ok (seq, table') := by
  obtain ⟨table', hinsert⟩ := AutoTable.insert_of_lt message.row (fun _ ↦ rfl) h
  unfold record
  rw [hinsert]
  exact ⟨_, _, rfl⟩

/-! ## Transactions of the application -/

/-- What happens on one connection.  A rollback is the application's or, after an error, SQLite's own. -/
inductive Event where
  | begin
  | commit
  | rollback
  | record (message : Message)
  | delete (seq : Int)
  | deleteChat (chatId : String)

/-- A connection, with the numbers given out over it.  `saved` is the table at `BEGIN`, its high-water
mark included, while a transaction is open. -/
structure Connection where
  table : MessageTable
  saved : Option MessageTable := none
  given : List Int := []
  -- whether a rollback has taken a recorded message back
  undone : Bool := false

namespace Connection

def step (conn : Connection) : Event → Connection
  | .begin =>
      match conn.saved with
      -- a transaction within a transaction is refused
      | some _ => conn
      | none => { conn with saved := some conn.table }
  | .commit => { conn with saved := none }
  | .rollback =>
      match conn.saved with
      | some table =>
          { conn with
            table := table
            saved := none
            undone := conn.undone || table.sequence < conn.table.sequence }
      | none => conn
  | .record message =>
      match MessageStore.record conn.table message with
      | .ok (seq, table) => { conn with table := table, given := conn.given ++ [seq] }
      | .error _ => conn
  | .delete seq => { conn with table := (MessageStore.delete conn.table seq).2 }
  | .deleteChat chatId => { conn with table := (MessageStore.deleteChat conn.table chatId).2 }

/-- A message is recorded only while no rollback has taken one back. -/
def RecordsForGood (conn : Connection) : Event → Prop
  | .record _ => conn.undone = false
  | _ => True

/-- The numbers given out increase, and the mark is not below them unless one was taken back. -/
structure Inv (conn : Connection) : Prop where
  increasing : conn.given.Pairwise (· < ·)
  le_max : ∀ seq ∈ conn.given, seq ≤ maxRowid
  kept : conn.undone = false → ∀ seq ∈ conn.given, seq ≤ conn.table.sequence
  undone : conn.undone = true → ∃ seq ∈ conn.given, conn.table.sequence < seq
  -- what was recorded in the open transaction was given out
  saved : ∀ table ∈ conn.saved, table.sequence ≤ conn.table.sequence ∧
    (table.sequence < conn.table.sequence → conn.table.sequence ∈ conn.given)

variable {conn : Connection}

theorem inv_start (table : MessageTable) : Inv { table := table } where
  increasing := .nil
  le_max := nofun
  kept _ := nofun
  undone := nofun
  saved := nofun

theorem step_record {message : Message} {seq : Int} {table : MessageTable}
    (h : record conn.table message = .ok (seq, table)) :
    conn.step (.record message) = { conn with table := table, given := conn.given ++ [seq] } := by
  rw [step, h]

theorem given_prefix_step (conn : Connection) (e : Event) : conn.given <+: (conn.step e).given := by
  cases e with
  | record message =>
      rw [step]
      split
      · exact List.prefix_append _ _
      · exact List.prefix_rfl
  | begin =>
      rw [step]
      split <;> exact List.prefix_rfl
  | rollback =>
      rw [step]
      split <;> exact List.prefix_rfl
  | commit => exact List.prefix_rfl
  | delete seq => exact List.prefix_rfl
  | deleteChat chatId => exact List.prefix_rfl

theorem Inv.record (h : conn.Inv) (hkept : conn.undone = false) (message : Message) :
    (conn.step (.record message)).Inv := by
  cases hrecord : MessageStore.record conn.table message with
  | error e =>
      rw [step, hrecord]
      exact h
  | ok answer =>
      obtain ⟨seq, table⟩ := answer
      obtain ⟨hroom, hseq, hmark, -⟩ := record_eq_ok hrecord
      rw [step_record hrecord]
      have hbelow (other : Int) (hmem : other ∈ conn.given) : other < seq := by
        have hle := h.kept hkept other hmem
        omega
      have hmem (other : Int) (hmem : other ∈ conn.given ++ [seq]) : other ≤ seq := by
        obtain hold | hnew := List.mem_append.mp hmem
        · exact (hbelow other hold).le
        · exact (List.mem_singleton.mp hnew).le
      refine ⟨?_, fun other hother ↦ ?_, fun _ other hother ↦ ?_, fun hundone ↦ ?_, fun saved hsaved ↦ ?_⟩
      · refine List.pairwise_append.mpr ⟨h.increasing, List.pairwise_singleton _ _, ?_⟩
        intro a ha b hb
        rw [List.mem_singleton.mp hb]
        exact hbelow a ha
      · have hle := hmem other hother
        omega
      · show other ≤ table.sequence
        rw [hmark]
        exact hmem other hother
      · exact absurd (hundone.symm.trans hkept) (by decide)
      · have hle := (h.saved saved hsaved).1
        show saved.sequence ≤ table.sequence ∧ (_ → table.sequence ∈ conn.given ++ [seq])
        rw [hmark]
        exact ⟨by omega, fun _ ↦ List.mem_append_right _ (List.mem_singleton_self seq)⟩

theorem Inv.rollback (h : conn.Inv) : (conn.step .rollback).Inv := by
  rw [step]
  cases hsaved : conn.saved with
  | none => exact h
  | some table =>
      obtain ⟨hle, hgiven⟩ := h.saved table hsaved
      refine ⟨h.increasing, h.le_max, fun hkept seq hmem ↦ ?_, fun hundone ↦ ?_, nofun⟩
      · -- nothing was taken back, so the mark is where it was
        obtain ⟨hkept, hsame⟩ := Bool.or_eq_false_iff.mp hkept
        have hle := h.kept hkept seq hmem
        have hnot := of_decide_eq_false hsame
        show seq ≤ table.sequence
        omega
      · obtain hundone | hlower := Bool.or_eq_true_iff.mp hundone
        · obtain ⟨seq, hmem, hlt⟩ := h.undone hundone
          exact ⟨seq, hmem, lt_of_le_of_lt hle hlt⟩
        · have hlower := of_decide_eq_true hlower
          exact ⟨conn.table.sequence, hgiven hlower, hlower⟩

theorem Inv.step (h : conn.Inv) {e : Event} (he : conn.RecordsForGood e) : (conn.step e).Inv := by
  cases e with
  | record message => exact h.record he message
  | rollback => exact h.rollback
  | begin =>
      rw [Connection.step]
      cases hsaved : conn.saved with
      | some table => exact h
      | none =>
          refine ⟨h.increasing, h.le_max, h.kept, h.undone, fun table htable ↦ ?_⟩
          cases htable
          exact ⟨le_rfl, fun hlt ↦ absurd hlt (lt_irrefl _)⟩
  | commit => exact ⟨h.increasing, h.le_max, h.kept, h.undone, nofun⟩
  | delete seq => exact ⟨h.increasing, h.le_max, h.kept, h.undone, h.saved⟩
  | deleteChat chatId => exact ⟨h.increasing, h.le_max, h.kept, h.undone, h.saved⟩

/-- After a message was taken back, the next number was given out before. -/
theorem Inv.recordsForGood (h : conn.Inv) {e : Event}
    (hafter : (conn.step e).given.Pairwise (· < ·)) : conn.RecordsForGood e := by
  cases e with
  | record message =>
      by_contra hundone
      obtain ⟨old, hold, hlt⟩ := h.undone (Bool.not_eq_false _ ▸ hundone)
      have hmax := h.le_max old hold
      obtain ⟨seq, table, hrecord⟩ := record_of_lt (lt_of_lt_of_le hlt hmax) message
      obtain ⟨-, hseq, -⟩ := record_eq_ok hrecord
      rw [step_record hrecord] at hafter
      have hless := (List.pairwise_append.mp hafter).2.2 old hold seq (List.mem_singleton_self seq)
      omega
  | begin => trivial
  | commit => trivial
  | rollback => trivial
  | delete seq => trivial
  | deleteChat chatId => trivial

end Connection

/-- Over every sequence of calls, made directly or in transactions of the application, the numbers given
out increase exactly when no message is recorded after a rollback that took a recorded one back. -/
theorem seqs_increase_iff (table : MessageTable) (events : List Event) :
    (run Connection.step { table := table } events).given.Pairwise (· < ·) ↔
      Along Connection.step Connection.RecordsForGood { table := table } events := by
  have hgood (conn : Connection) (h : conn.Inv) : conn.given.Pairwise (· < ·) := h.increasing
  refine along_iff_end hgood (fun conn e h ↦ ?_) (fun conn e h he ↦ h.step he)
    (fun conn e h hafter ↦ h.recordsForGood hafter) (Connection.inv_start table) events
  exact h.sublist (conn.given_prefix_step e).sublist

def greeting : Message :=
  { chatId := "saro-raya"
    convoId := "convo-1"
    direction := .received
    senderAccount := some "raya"
    senderInstallation := some "raya-phone"
    messageId := none
    timestampMs := 1758000000000
    content := [0x68, 0x69] }

/-- The number of a message that was rolled back is given out again. -/
theorem rolled_back_seq_given_again :
    (run Connection.step { table := .empty } [.begin, .record greeting, .rollback, .record greeting]).given =
        [1, 1] ∧
      ¬ (run Connection.step { table := .empty }
        [.begin, .record greeting, .rollback, .record greeting]).given.Pairwise (· < ·) := by
  decide +kernel

end LogosChat.Messages.MessageStore
