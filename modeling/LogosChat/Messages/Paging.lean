import LogosChat.Messages.MessageStore
import LogosChat.Reasoning.Paging

/-!
# Reading a chat in pages

A reader takes the newest messages of a chat and then page after page, each below the first message of the
one before it, until a page is short.  Meanwhile messages are recorded and deleted, also those the reader
stands at.
-/

namespace LogosChat.Messages.MessageStore

open Reasoning

/-! ## What a read returns -/

/-- The message in a row. -/
def MessageRow.stored (row : MessageRow) : StoredMessage :=
  { seq := row.seq
    message :=
      { chatId := row.chatId
        convoId := row.convoId
        direction := if row.direction = 0 then .sent else .received
        senderAccount := row.senderAccount
        senderInstallation := row.senderInstallation
        messageId := row.messageId
        timestampMs := row.timestampMs
        content := row.content } }

-- the check leaves no other direction
theorem MessageRow.storedMessage_eq (row : MessageRow) : row.storedMessage = .ok row.stored := by
  obtain ⟨seq, chatId, convoId, direction, _, _, _, _, _, check⟩ := row
  obtain rfl | rfl := check <;> rfl

/-- The messages of a chat. -/
def chatMessages (table : MessageTable) (chatId : String) : List StoredMessage :=
  (table.select (MessageRow.inChat chatId)).map MessageRow.stored

theorem mem_chatMessages {table : MessageTable} {chatId : String} {m : StoredMessage} :
    m ∈ chatMessages table chatId ↔ ∃ row ∈ table.rows, row.chatId = chatId ∧ row.stored = m := by
  simp [chatMessages, MessageRow.inChat, and_assoc]

theorem chatMessages_distinct (table : MessageTable) (chatId : String) :
    (chatMessages table chatId).Pairwise fun a b ↦ a.seq ≠ b.seq := by
  apply List.pairwise_map.mpr
  exact table.primaryKey.filter _

theorem seq_le_sequence {table : MessageTable} {chatId : String} {m : StoredMessage}
    (h : m ∈ chatMessages table chatId) : m.seq ≤ table.sequence := by
  obtain ⟨row, hrow, -, rfl⟩ := mem_chatMessages.mp h
  exact table.le_sequence row hrow

theorem mapM_storedMessage (rows : List MessageRow) :
    rows.mapM MessageRow.storedMessage = .ok (rows.map MessageRow.stored) := by
  induction rows with
  | nil => rfl
  | cons row rows ih =>
      rw [List.mapM_cons, MessageRow.storedMessage_eq, ih]
      rfl

theorem rowsBelow_chatMessages (table : MessageTable) (chatId : String) (before : Int) :
    rowsBelow StoredMessage.seq (chatMessages table chatId) before =
      (orderBy MessageRow.seq (table.select (MessageRow.below chatId before))).map MessageRow.stored := by
  have hselect : table.select (MessageRow.below chatId before) =
      (table.select (MessageRow.inChat chatId)).filter fun row ↦ row.seq < before := by
    unfold Table.select
    rw [List.filter_filter]
    apply List.filter_congr
    intro row _
    simp [MessageRow.below, and_comm]
  rw [rowsBelow, chatMessages, hselect, List.filter_map, orderBy_map]
  rfl

/-- A read returns a page of the chat, whatever the limit that fits into an `i64`. -/
theorem messages_eq (table : MessageTable) (chatId : String) (before : Option Int) {limit : Nat}
    (hlimit : limit ≤ maxRowid) :
    messages table chatId before limit =
      .ok (page StoredMessage.seq (chatMessages table chatId) (before.getD maxRowid) limit) := by
  have hdistinct : (table.select (MessageRow.below chatId (before.getD maxRowid))).Pairwise
      fun a b ↦ a.seq ≠ b.seq := table.primaryKey.filter _
  rw [messages, if_neg (not_lt.mpr hlimit), orderByDesc_eq_reverse hdistinct]
  dsimp only
  rw [mapM_storedMessage, page, rowsBelow_chatMessages, List.take_reverse, List.map_reverse, List.length_map,
    ← List.map_drop]
  show Except.ok _ = Except.ok _
  rw [List.reverse_reverse]

/-! ## The reader -/

/-- Where the reader stands. -/
inductive Position where
  | newest
  | below (seq : Int)
  | finished
  | failed (e : Error)
deriving DecidableEq

/-- The database and a reader of one chat, with the pages it was returned and the messages that the chat
held when it read the last of them. -/
structure Session where
  table : MessageTable
  pages : List (List StoredMessage) := []
  position : Position := .newest
  lastRead : List StoredMessage := []

inductive PagingEvent where
  | record (message : Message)
  | delete (seq : Int)
  | deleteChat (chatId : String)
  | read
deriving DecidableEq

namespace Session

/-- One call of `messages`.  A page shorter than the limit is the last; the `seq` of a page's first message
reads the page before it. -/
def readPage (chatId : String) (limit : Nat) (s : Session) (before : Option Int) : Session :=
  match messages s.table chatId before limit with
  | .ok page =>
      { s with
        pages := s.pages ++ [page]
        position :=
          if page.length < limit then .finished
          else match page.head? with
            | some first => .below first.seq
            | none => .finished
        lastRead := chatMessages s.table chatId }
  | .error e => { s with position := .failed e }

def read (chatId : String) (limit : Nat) (s : Session) : Session :=
  match s.position with
  | .newest => s.readPage chatId limit none
  | .below seq => s.readPage chatId limit (some seq)
  | .finished => s
  | .failed _ => s

def step (chatId : String) (limit : Nat) (s : Session) : PagingEvent → Session
  | .record message =>
      match record s.table message with
      | .ok (_, table) => { s with table := table }
      | .error _ => s
  | .delete seq => { s with table := (delete s.table seq).2 }
  | .deleteChat chatId => { s with table := (deleteChat s.table chatId).2 }
  | .read => s.read chatId limit

/-- The first call. -/
def start (chatId : String) (limit : Nat) (table : MessageTable) : Session :=
  read chatId limit { table := table }

/-- The session as a walk down the rows. -/
def reader (s : Session) : Reader StoredMessage where
  pages := s.pages
  next :=
    match s.position with
    | .newest => some maxRowid
    | .below seq => some seq
    | .finished => none
    | .failed _ => none

/-- What a session keeps to after its first read, of a table that had given `mark` out last and held the
messages `first` of the chat. -/
structure Inv (chatId : String) (limit : Nat) (mark : Int) (first : List StoredMessage) (s : Session) :
    Prop where
  walk : Walk StoredMessage.seq limit first s.lastRead s.reader
  started : s.pages ≠ []
  goes : s.position = .finished ∨ ∃ seq, s.position = .below seq
  mark_le : mark ≤ s.table.sequence
  first_le : ∀ m ∈ first, m.seq ≤ mark
  -- what is not of the first read came after it
  later : ∀ m ∈ chatMessages s.table chatId, m ∈ first ∨ mark < m.seq
  left : ∀ m ∈ chatMessages s.table chatId, m ∈ first → m ∈ s.lastRead

variable {chatId : String} {limit : Nat} {mark : Int} {first : List StoredMessage} {s : Session}

theorem reader_readPage (hlimit : limit ≤ maxRowid) (s : Session) (before : Option Int) :
    (s.readPage chatId limit before).reader = s.reader.turn StoredMessage.seq limit
      (page StoredMessage.seq (chatMessages s.table chatId) (before.getD maxRowid) limit) := by
  rw [readPage, messages_eq s.table chatId before hlimit]
  generalize page StoredMessage.seq (chatMessages s.table chatId) (before.getD maxRowid) limit = p
  by_cases hshort : p.length < limit
  · simp [reader, Reader.turn, hshort]
  · cases hhead : p.head? <;> simp [reader, Reader.turn, hshort, hhead]

theorem length_pages_readPage (hlimit : limit ≤ maxRowid) (s : Session) (before : Option Int) :
    (s.readPage chatId limit before).pages.length = s.pages.length + 1 := by
  rw [readPage, messages_eq s.table chatId before hlimit]
  exact List.length_append

theorem length_pages_start (hlimit : limit ≤ maxRowid) (table : MessageTable) :
    (start chatId limit table).pages.length = 1 :=
  length_pages_readPage hlimit { table := table } none

theorem lastRead_readPage (hlimit : limit ≤ maxRowid) (s : Session) (before : Option Int) :
    (s.readPage chatId limit before).lastRead = chatMessages s.table chatId := by
  rw [readPage, messages_eq s.table chatId before hlimit]

theorem table_readPage (s : Session) (before : Option Int) :
    (s.readPage chatId limit before).table = s.table := by
  unfold readPage
  split <;> rfl

theorem goes_readPage (hlimit : limit ≤ maxRowid) (s : Session) (before : Option Int) :
    (s.readPage chatId limit before).position = .finished ∨
      ∃ seq, (s.readPage chatId limit before).position = .below seq := by
  rw [readPage, messages_eq s.table chatId before hlimit]
  dsimp only
  split
  · exact .inl rfl
  · split
    · exact .inr ⟨_, rfl⟩
    · exact .inl rfl

/-- A read that turns the page of a walk. -/
theorem Inv.of_walk (hlimit : limit ≤ maxRowid) {before : Option Int}
    (hwalk : Walk StoredMessage.seq limit first (chatMessages s.table chatId) (s.readPage chatId limit before).reader)
    (hmark : mark ≤ s.table.sequence) (hfirst : ∀ m ∈ first, m.seq ≤ mark)
    (hlater : ∀ m ∈ chatMessages s.table chatId, m ∈ first ∨ mark < m.seq) :
    Inv chatId limit mark first (s.readPage chatId limit before) := by
  constructor
  case walk =>
    rw [lastRead_readPage hlimit]
    exact hwalk
  case started =>
    apply List.ne_nil_of_length_eq_add_one
    exact length_pages_readPage hlimit s before
  case goes => exact goes_readPage hlimit s before
  case mark_le =>
    rw [table_readPage]
    exact hmark
  case first_le => exact hfirst
  case later =>
    rw [table_readPage]
    exact hlater
  case left =>
    rw [table_readPage, lastRead_readPage hlimit]
    exact fun m hm _ ↦ hm

theorem inv_start (hpos : 1 ≤ limit) (hlimit : limit ≤ maxRowid) {table : MessageTable}
    (hmax : ∀ m ∈ chatMessages table chatId, m.seq < maxRowid) :
    Inv chatId limit table.sequence (chatMessages table chatId) (start chatId limit table) := by
  have hstart : Walk StoredMessage.seq limit (chatMessages table chatId) (chatMessages table chatId)
      (reader { table := table }) := walk_start hmax
  refine Inv.of_walk hlimit ?_ le_rfl (fun m hm ↦ seq_le_sequence hm) (fun m hm ↦ .inl hm)
  rw [reader_readPage hlimit]
  exact hstart.turn rfl hpos (chatMessages_distinct table chatId) (fun m hm _ ↦ hm) (fun m hm _ ↦ hm)

theorem Inv.read (h : Inv chatId limit mark first s) (hpos : 1 ≤ limit) (hlimit : limit ≤ maxRowid) :
    Inv chatId limit mark first (s.read chatId limit) := by
  obtain hfinished | ⟨seq, hbelow⟩ := h.goes
  · rw [Session.read, hfinished]
    exact h
  · have hnext : s.reader.next = some seq := by rw [reader, hbelow]
    rw [Session.read, hbelow]
    refine Inv.of_walk hlimit ?_ h.mark_le h.first_le h.later
    rw [reader_readPage hlimit]
    refine h.walk.turn hnext hpos (chatMessages_distinct s.table chatId) h.left ?_
    -- the bound is the `seq` of a message of the first read, and nothing later is under it
    intro m hm hlt
    obtain ⟨bound, hbound, rfl⟩ := h.walk.next_mem h.started seq hnext
    obtain hfirst | hlater := h.later m hm
    · exact hfirst
    · have hle := h.first_le bound hbound
      replace hlt : m.seq < bound.seq := hlt
      omega

/-- What others write in between leaves of the first read what was there, and adds only what comes after
it. -/
theorem Inv.write (h : Inv chatId limit mark first s) {table : MessageTable}
    (hsequence : s.table.sequence ≤ table.sequence)
    (hrows : ∀ row ∈ table.rows, row ∈ s.table.rows ∨ s.table.sequence < row.seq) :
    Inv chatId limit mark first { s with table := table } := by
  have hmem (m : StoredMessage) (hm : m ∈ chatMessages table chatId) :
      m ∈ chatMessages s.table chatId ∨ mark < m.seq := by
    obtain ⟨row, hrow, hchat, rfl⟩ := mem_chatMessages.mp hm
    obtain hold | hnew := hrows row hrow
    · exact .inl (mem_chatMessages.mpr ⟨row, hold, hchat, rfl⟩)
    · exact .inr (lt_of_le_of_lt h.mark_le hnew)
  constructor
  case walk => exact h.walk
  case started => exact h.started
  case goes => exact h.goes
  case mark_le => exact h.mark_le.trans hsequence
  case first_le => exact h.first_le
  case later =>
    intro m hm
    obtain hold | hnew := hmem m hm
    · exact h.later m hold
    · exact .inr hnew
  case left =>
    intro m hm hfirst
    obtain hold | hnew := hmem m hm
    · exact h.left m hold hfirst
    · exact absurd hnew (not_lt.mpr (h.first_le m hfirst))

theorem Inv.step (h : Inv chatId limit mark first s) (hpos : 1 ≤ limit) (hlimit : limit ≤ maxRowid)
    (e : PagingEvent) : Inv chatId limit mark first (s.step chatId limit e) := by
  cases e with
  | read => exact h.read hpos hlimit
  | record message =>
      rw [Session.step]
      cases hrecord : record s.table message with
      | error e => exact h
      | ok answer =>
          obtain ⟨seq, table⟩ := answer
          obtain ⟨-, hseq, hsequence, hrows⟩ := record_eq_ok hrecord
          apply h.write
          · omega
          · intro row hrow
            rw [hrows] at hrow
            obtain hold | hnew := List.mem_append.mp hrow
            · exact .inl hold
            · rw [List.mem_singleton.mp hnew]
              exact .inr (by show s.table.sequence < seq; omega)
  | delete seq => exact h.write le_rfl fun row hrow ↦ .inl (Table.mem_delete.mp hrow).1
  | deleteChat chatId => exact h.write le_rfl fun row hrow ↦ .inl (Table.mem_delete.mp hrow).1

theorem finished_step (h : s.position = .finished) (e : PagingEvent) :
    (s.step chatId limit e).position = .finished := by
  cases e with
  | read =>
      rw [Session.step, Session.read, h]
      exact h
  | record message =>
      rw [Session.step]
      split <;> exact h
  | delete seq => exact h
  | deleteChat chatId => exact h

/-- A reader that is not through gets one page more with every read. -/
theorem Inv.length_pages_step (h : Inv chatId limit mark first s) (hlimit : limit ≤ maxRowid)
    (e : PagingEvent) : s.position = .finished ∨
      (s.step chatId limit e).pages.length = s.pages.length + [e].count .read := by
  cases e with
  | read =>
      obtain hfinished | ⟨seq, hbelow⟩ := h.goes
      · exact .inl hfinished
      · rw [Session.step, Session.read, hbelow]
        exact .inr (length_pages_readPage hlimit s (some seq))
  | record message =>
      rw [Session.step]
      split <;> exact .inr rfl
  | delete seq => exact .inr rfl
  | deleteChat chatId => exact .inr rfl

theorem Inv.length_pages_run (h : Inv chatId limit mark first s) (hpos : 1 ≤ limit)
    (hlimit : limit ≤ maxRowid) (events : List PagingEvent) :
    (run (Session.step chatId limit) s events).position = .finished ∨
      (run (Session.step chatId limit) s events).pages.length = s.pages.length + events.count .read := by
  have hstays (s : Session) (e : PagingEvent) (hs : s.position = .finished) :
      (s.step chatId limit e).position = .finished := finished_step hs e
  induction events generalizing s with
  | nil => exact .inr rfl
  | cons e events ih =>
      obtain hfinished | hlength := h.length_pages_step hlimit e
      · exact .inl (run_invariant hstays hfinished (e :: events))
      · obtain hfinished | hrest := ih (h.step hpos hlimit e)
        · exact .inl hfinished
        · right
          have hcount : ([e] ++ events).count .read = [e].count .read + events.count .read :=
            List.count_append
          rw [List.singleton_append] at hcount
          rw [run_cons, hrest, hlength, hcount, Nat.add_assoc]

end Session

/-- The pages that a reader of a chat is returned, of which it read the first when the chat held the
messages `first`. -/
structure ReadsOnce (limit : Nat) (first : List StoredMessage) (reads : Nat) (s : Session) : Prop where
  increasing : ∀ page ∈ s.pages, page.Pairwise fun a b ↦ a.seq < b.seq
  descending : s.pages.Pairwise fun page next ↦ ∀ a ∈ page, ∀ b ∈ next, b.seq < a.seq
  disjoint : s.pages.flatten.Nodup
  -- of this chat, and not recorded after the first read
  sound : ∀ page ∈ s.pages, ∀ m ∈ page, m ∈ first
  -- what was there at the first read and at the last
  complete : s.position = .finished → ∀ m ∈ first, m ∈ s.lastRead → s.pages.flatten.count m = 1
  stops : first.length < (1 + reads) * limit → s.position = .finished
  succeeds : ∀ e, s.position ≠ .failed e

/-- Whatever is recorded and deleted between its reads, a reader whose limit fits into an `i64` returns the
messages of a chat once each and stops, unless one has the largest `seq` there is. -/
theorem pages_read_once (table : MessageTable) (chatId : String) (limit : Nat) (hpos : 1 ≤ limit)
    (hlimit : limit ≤ maxRowid) (hmax : ∀ m ∈ chatMessages table chatId, m.seq < maxRowid)
    (events : List PagingEvent) :
    ReadsOnce limit (chatMessages table chatId) (events.count .read)
      (run (Session.step chatId limit) (Session.start chatId limit table) events) := by
  have hstart := Session.inv_start hpos hlimit hmax
  have hstep (s : Session) (e : PagingEvent)
      (hs : s.Inv chatId limit table.sequence (chatMessages table chatId)) :
      (s.step chatId limit e).Inv chatId limit table.sequence (chatMessages table chatId) :=
    hs.step hpos hlimit e
  have h := run_invariant hstep hstart events
  have hlength := hstart.length_pages_run hpos hlimit events
  rw [Session.length_pages_start hlimit table] at hlength
  generalize run (Session.step chatId limit) (Session.start chatId limit table) events = s at h hlength
  constructor
  case increasing => exact h.walk.increasing
  case descending => exact h.walk.descending
  case disjoint => exact h.walk.nodup
  case sound => exact h.walk.sound
  case complete =>
    intro hfinished m hfirst hlast
    have hread : ∃ p ∈ s.pages, m ∈ p := by
      apply h.walk.covered m hlast hfirst
      rw [Session.reader, hfinished]
      exact nofun
    exact List.count_eq_one_of_mem h.walk.nodup (List.mem_flatten.mpr hread)
  case stops =>
    intro hshort
    obtain hfinished | hlength := hlength
    · exact hfinished
    obtain hfinished | ⟨seq, hbelow⟩ := h.goes
    · exact hfinished
    · have hgoes : s.reader.next ≠ none := by
        rw [Session.reader, hbelow]
        exact Option.some_ne_none seq
      have hle : s.pages.length * limit ≤ _ := h.walk.length_mul_le hgoes
      rw [hlength] at hle
      exact absurd hshort (not_lt.mpr hle)
  case succeeds =>
    intro e hfailed
    obtain hfinished | ⟨seq, hbelow⟩ := h.goes
    · rw [hfinished] at hfailed
      cases hfailed
    · rw [hbelow] at hfailed
      cases hfailed

/-- A chat of three messages. -/
def greetings : MessageTable :=
  (run Connection.step { table := .empty } [.record greeting, .record greeting, .record greeting]).table

theorem greetings_read_once :
    (1 ≤ 2 ∧ (2 : Nat) ≤ maxRowid ∧ ∀ m ∈ chatMessages greetings "saro-raya", m.seq < maxRowid) ∧
      ReadsOnce 2 (chatMessages greetings "saro-raya") 2
        (run (Session.step "saro-raya" 2) (Session.start "saro-raya" 2 greetings)
          [.delete 2, .record greeting, .read, .read]) :=
  ⟨by decide +kernel,
    pages_read_once greetings "saro-raya" 2 (by decide) (by decide) (by decide +kernel)
      [.delete 2, .record greeting, .read, .read]⟩

/-- A table with the largest key given out. -/
def fullTable : MessageTable where
  rows := [greeting.row maxRowid]
  primaryKey := List.pairwise_singleton _ _
  sequence := maxRowid
  sequence_le := le_rfl
  le_sequence _ hmem := (congrArg MessageRow.seq (List.mem_singleton.mp hmem)).le

/-- A limit above `i64::MAX` is refused, and the first read passes over a message whose `seq` is
`i64::MAX`. -/
theorem largest_values_not_read :
    (Session.start "saro-raya" 9223372036854775808 greetings).position = .failed .toSqlConversionFailure ∧
      ¬ ReadsOnce 9223372036854775808 (chatMessages greetings "saro-raya") 0
        (run (Session.step "saro-raya" 9223372036854775808)
          (Session.start "saro-raya" 9223372036854775808 greetings) []) ∧
      (Session.start "saro-raya" 4 fullTable).pages = [[]] ∧
      ¬ ReadsOnce 4 (chatMessages fullTable "saro-raya") 0
        (run (Session.step "saro-raya" 4) (Session.start "saro-raya" 4 fullTable) []) := by
  have hrefused : (Session.start "saro-raya" 9223372036854775808 greetings).position =
      .failed .toSqlConversionFailure := by decide +kernel
  have hempty : (Session.start "saro-raya" 4 fullTable).pages = [[]] := by decide +kernel
  have hfinished : (Session.start "saro-raya" 4 fullTable).position = .finished := by decide +kernel
  have hthere : ⟨maxRowid, greeting⟩ ∈ chatMessages fullTable "saro-raya" ∧
      ⟨maxRowid, greeting⟩ ∈ (Session.start "saro-raya" 4 fullTable).lastRead := by decide +kernel
  refine ⟨hrefused, fun h ↦ h.succeeds _ hrefused, hempty, fun h ↦ ?_⟩
  have hcount : (Session.start "saro-raya" 4 fullTable).pages.flatten.count ⟨maxRowid, greeting⟩ = 1 :=
    h.complete hfinished _ hthere.1 hthere.2
  rw [hempty] at hcount
  cases hcount

end LogosChat.Messages.MessageStore
