import LogosChat.Conversations.Services
import LogosChat.Reasoning.Run
import LogosChat.Reasoning.Sql
import LogosChat.Storage.Substrate

/-!
# The records of conversations

The core keeps a record of each GroupV1 conversation in a store of which it knows only the trait.  The
list of records that the core is modelled with stands for both implementations: a table in SQLite,
which keeps the kind of a conversation as text, and a map in memory.  Neither lists its records in any
order.
-/

namespace LogosChat.Conversations

namespace ConversationKind

def asStr : ConversationKind → String
  | .unknown value => value
  | .groupV1 => "group_v1"

/-- `From<&str>`. -/
def ofStr (value : String) : ConversationKind :=
  if value = "group_v1" then .groupV1 else .unknown value

end ConversationKind

/-- The record as it comes back from a text. -/
def ConversationMeta.asText (record : ConversationMeta) : ConversationMeta :=
  { record with kind := .ofStr record.kind.asStr }

end LogosChat.Conversations

namespace LogosChat.Storage

open Reasoning Conversations

/-- The calls that the core makes on a store. -/
inductive RecordCall where
  | saveConversation (record : ConversationMeta)
  | loadConversation (convoId : String)
  | loadConversations
  | hasConversation (convoId : String)

inductive RecordAnswer where
  | done
  | record (record : Option ConversationMeta)
  | records (records : List ConversationMeta)
  | has (has : Bool)

namespace RecordAnswer

/-- The same answer, with the records in any order. -/
def Same : RecordAnswer → RecordAnswer → Prop
  | .records rs, .records rs' => rs.Perm rs'
  | answer, answer' => answer = answer'

def asText : RecordAnswer → RecordAnswer
  | .done => .done
  | .record r => .record (r.map ConversationMeta.asText)
  | .records rs => .records (rs.map ConversationMeta.asText)
  | .has b => .has b

end RecordAnswer

/-! ## The list of the core -/

namespace RecordList

/-- A call on the list, which never fails here. -/
def perform (records : List ConversationMeta) :
    RecordCall → Result String RecordAnswer × List ConversationMeta
  | .saveConversation record =>
      let after := ConversationStore.saveConversation record { records := records }
      (do after.1; .ok .done, after.2.records)
  | .loadConversation convoId =>
      let after := ConversationStore.loadConversation convoId { records := records }
      (do let record ← after.1; .ok (.record record), after.2.records)
  | .loadConversations =>
      let after := ConversationStore.loadConversations { records := records }
      (do let records ← after.1; .ok (.records records), after.2.records)
  | .hasConversation convoId =>
      let after := ConversationStore.hasConversation convoId { records := records }
      (do let has ← after.1; .ok (.has has), after.2.records)

end RecordList

/-! ## In memory -/

/-- The part of `MemStore` that holds the records. -/
abbrev MemConvos := Std.HashMap String ConversationMeta

namespace MemConvos

def perform (convos : MemConvos) : RecordCall → Result StorageError RecordAnswer × MemConvos
  | .saveConversation record => (.ok .done, convos.insert record.localConvoId record)
  | .loadConversation convoId => (.ok (.record convos[convoId]?), convos)
  -- `values`, in the order of the map
  | .loadConversations => (.ok (.records (convos.toList.map Prod.snd)), convos)
  | .hasConversation convoId => (.ok (.has (convos.contains convoId)), convos)

end MemConvos

/-! ## Over SQLite -/

/-- A row of `conversations`, without the time it was created. -/
structure ConversationRow where
  localConvoId : String
  convoType : String
deriving DecidableEq

namespace ConversationRow

def toMeta (row : ConversationRow) : ConversationMeta := ⟨row.localConvoId, .ofStr row.convoType⟩

/-- `local_convo_id = ?1`. -/
def isConvo (convoId : String) (row : ConversationRow) : Truth :=
  (SqlValue.text row.localConvoId).eq (.text convoId)

end ConversationRow

abbrev ConversationTable := Table ConversationRow String ConversationRow.localConvoId

namespace ConversationTable

def perform (table : ConversationTable) :
    RecordCall → Result StorageError RecordAnswer × ConversationTable
  | .saveConversation record =>
      (.ok .done, table.insertOrReplace ⟨record.localConvoId, record.kind.asStr⟩)
  | .loadConversation convoId =>
      (.ok (.record ((table.select (ConversationRow.isConvo convoId)).head?.map ConversationRow.toMeta)),
        table)
  | .loadConversations => (.ok (.records (table.rows.map ConversationRow.toMeta)), table)
  | .hasConversation convoId =>
      (.ok (.has !(table.select (ConversationRow.isConvo convoId)).isEmpty), table)

end ConversationTable

/-! ## One list for both -/

/-- The list stands for what the two stores hold. -/
structure Stands (records : List ConversationMeta) (convos : MemConvos) (table : ConversationTable) :
    Prop where
  unique : (records.map (·.localConvoId)).Nodup
  memory : ∀ convoId, convos[convoId]? = records.find? fun r ↦ r.localConvoId = convoId
  sqlite : (table.rows.map ConversationRow.toMeta).Perm (records.map ConversationMeta.asText)

variable {records : List ConversationMeta} {convos : MemConvos} {table : ConversationTable}

theorem stands_empty : Stands [] ∅ .empty where
  unique := List.nodup_nil
  memory _ := Std.HashMap.getElem?_empty
  sqlite := .nil

/-- In whatever order SQLite has the rows. -/
theorem Stands.scan (h : Stands records convos table) (scan : table.Scan) :
    Stands records convos scan.toTable :=
  ⟨h.unique, h.memory, (scan.perm.map _).trans h.sqlite⟩

theorem Stands.save (h : Stands records convos table) (record : ConversationMeta) :
    Stands (records.filter (fun r ↦ r.localConvoId ≠ record.localConvoId) ++ [record])
      (convos.insert record.localConvoId record)
      (table.insertOrReplace ⟨record.localConvoId, record.kind.asStr⟩) where
  unique := by
    rw [List.map_append, List.map_singleton, ← List.concat_eq_append]
    apply List.Nodup.concat
    · simp
    · exact h.unique.sublist (List.filter_sublist.map _)
  memory convoId := by
    rw [Std.HashMap.getElem?_insert, List.find?_append, List.find?_filter, h.memory]
    by_cases hid : record.localConvoId = convoId
    · subst hid
      have hnone : records.find? (fun r ↦ decide (decide (r.localConvoId ≠ record.localConvoId) = true ∧
          decide (r.localConvoId = record.localConvoId) = true)) = none := by
        rw [List.find?_eq_none]
        simp
      rw [hnone]
      simp
    · have hsame : (fun r : ConversationMeta ↦ decide (decide (r.localConvoId ≠ record.localConvoId) = true ∧
          decide (r.localConvoId = convoId) = true)) = fun r ↦ decide (r.localConvoId = convoId) := by
        funext r
        by_cases hr : r.localConvoId = convoId
        · simp [hr, Ne.symm hid]
        · simp [hr]
      rw [hsame]
      simp [hid]
  sqlite := by
    have hrows := h.sqlite.filter fun r ↦ decide (r.localConvoId ≠ record.localConvoId)
    rw [List.filter_map, List.filter_map] at hrows
    show ((_ ++ [_]).map ConversationRow.toMeta).Perm _
    rw [List.map_append, List.map_append]
    exact hrows.append_right _

theorem Stands.perm (h : Stands records convos table) :
    (convos.toList.map Prod.snd).Perm records := by
  -- a record is filed under its own id
  have hkey (convoId : String) (record : ConversationMeta) :
      (convoId, record) ∈ convos.toList ↔ record ∈ records ∧ record.localConvoId = convoId := by
    rw [Std.HashMap.mem_toList_iff_getElem?_eq_some, h.memory]
    constructor
    · intro hfind
      exact ⟨List.mem_of_find?_eq_some hfind, by simpa using List.find?_some hfind⟩
    · rintro ⟨hmem, rfl⟩
      cases hfind : records.find? fun r ↦ r.localConvoId = record.localConvoId with
      | none =>
          rw [List.find?_eq_none] at hfind
          exact absurd (decide_eq_true rfl) (hfind record hmem)
      | some other =>
          have hother : other.localConvoId = record.localConvoId := by
            simpa using List.find?_some hfind
          rw [List.inj_on_of_nodup_map h.unique (List.mem_of_find?_eq_some hfind) hmem hother]
  have hnodup : (convos.toList.map Prod.snd).Nodup := by
    refine List.pairwise_map.mpr (Std.HashMap.distinct_keys_toList.imp_of_mem ?_)
    rintro ⟨k, r⟩ ⟨k', r'⟩ hr hr' hkeys rfl
    rw [← ((hkey k r).mp hr).2, ((hkey k' r).mp hr').2] at hkeys
    simp at hkeys
  rw [List.perm_ext_iff_of_nodup hnodup h.unique.of_map]
  intro record
  rw [List.mem_map]
  constructor
  · rintro ⟨⟨convoId, _⟩, hmem, rfl⟩
    exact ((hkey _ _).mp hmem).1
  · exact fun hmem ↦ ⟨(record.localConvoId, record), (hkey _ _).mpr ⟨hmem, rfl⟩, rfl⟩

/-- At most one record has an id. -/
theorem Stands.filter (h : Stands records convos table) (convoId : String) :
    records.filter (fun r ↦ r.localConvoId = convoId) =
      (records.find? fun r ↦ r.localConvoId = convoId).toList := by
  have hunique := h.unique
  clear h
  induction records with
  | nil => rfl
  | cons record records ih =>
      rw [List.map_cons, List.nodup_cons] at hunique
      by_cases hid : record.localConvoId = convoId
      · have hnone : records.filter (fun r ↦ r.localConvoId = convoId) = [] := by
          rw [List.filter_eq_nil_iff]
          intro other hmem heq
          refine hunique.1 (List.mem_map.mpr ⟨other, hmem, ?_⟩)
          rw [of_decide_eq_true heq, hid]
        rw [List.filter_cons_of_pos (by simpa using hid), hnone,
          List.find?_cons_of_pos (by simpa using hid)]
        rfl
      · rw [List.filter_cons_of_neg (by simpa using hid), List.find?_cons_of_neg (by simpa using hid)]
        exact ih hunique.2

/-- So the order of the rows does not matter for it. -/
theorem Stands.select (h : Stands records convos table) (convoId : String) :
    (table.select (ConversationRow.isConvo convoId)).map ConversationRow.toMeta =
      ((records.find? fun r ↦ r.localConvoId = convoId).map ConversationMeta.asText).toList := by
  have hcondition : (fun row ↦ decide (ConversationRow.isConvo convoId row = some true)) =
      (fun r : ConversationMeta ↦ decide (r.localConvoId = convoId)) ∘ ConversationRow.toMeta := by
    funext row
    rw [Function.comp_apply, decide_eq_decide]
    exact SqlValue.text_eq_iff
  have hrows := h.sqlite.filter fun r ↦ decide (r.localConvoId = convoId)
  rw [List.filter_map, List.filter_map, ← hcondition] at hrows
  have hrecords : (records.filter ((fun r : ConversationMeta ↦ decide (r.localConvoId = convoId)) ∘
      ConversationMeta.asText)).map ConversationMeta.asText =
      ((records.find? fun r ↦ r.localConvoId = convoId).map ConversationMeta.asText).toList := by
    rw [Option.toList_map, ← h.filter convoId]
    rfl
  rw [hrecords] at hrows
  cases hfound : (records.find? fun r ↦ r.localConvoId = convoId).map ConversationMeta.asText with
  | none =>
      rw [hfound] at hrows
      exact hrows.eq_nil
  | some found =>
      rw [hfound] at hrows
      exact hrows.eq_singleton

/-- Every call is answered alike, and leaves the list standing for both stores. -/
theorem Stands.perform (h : Stands records convos table) (call : RecordCall) :
    ∃ answer, (RecordList.perform records call).1 = .ok answer ∧
      (∃ answer', (convos.perform call).1 = .ok answer' ∧ answer'.Same answer) ∧
      (∃ answer', (table.perform call).1 = .ok answer' ∧ answer'.Same answer.asText) ∧
      Stands (RecordList.perform records call).2 (convos.perform call).2 (table.perform call).2 := by
  cases call with
  | saveConversation record => exact ⟨.done, rfl, ⟨.done, rfl, rfl⟩, ⟨.done, rfl, rfl⟩, h.save record⟩
  | loadConversation convoId =>
      refine ⟨.record (records.find? fun r ↦ r.localConvoId = convoId), rfl, ⟨_, rfl, ?_⟩, ⟨_, rfl, ?_⟩, h⟩
      · exact congrArg RecordAnswer.record (h.memory convoId)
      · refine congrArg RecordAnswer.record ?_
        rw [← List.head?_map, h.select convoId, Option.head?_toList]
  | loadConversations =>
      exact ⟨.records records, rfl, ⟨_, rfl, h.perm⟩, ⟨_, rfl, h.sqlite⟩, h⟩
  | hasConversation convoId =>
      have hany : records.any (fun r ↦ r.localConvoId = convoId) =
          (records.find? fun r ↦ r.localConvoId = convoId).isSome := by
        rw [Bool.eq_iff_iff, List.any_eq_true, List.find?_isSome]
      refine ⟨.has (records.any fun r ↦ r.localConvoId = convoId), rfl, ⟨_, rfl, ?_⟩, ⟨_, rfl, ?_⟩, h⟩
      · rw [hany, ← h.memory, ← Std.HashMap.contains_eq_isSome_getElem?]
        rfl
      · show RecordAnswer.has _ = RecordAnswer.has _
        have hselect := congrArg List.isEmpty (h.select convoId)
        rw [List.isEmpty_map] at hselect
        rw [hany, hselect]
        cases records.find? fun r ↦ r.localConvoId = convoId <;> rfl

theorem Stands.run (h : Stands records convos table) (calls : List RecordCall) :
    Stands (Reasoning.run (fun records call ↦ (RecordList.perform records call).2) records calls)
      (Reasoning.run (fun convos call ↦ (MemConvos.perform convos call).2) convos calls)
      (Reasoning.run (fun table call ↦ (ConversationTable.perform table call).2) table calls) := by
  induction calls generalizing records convos table with
  | nil => exact h
  | cons call calls ih =>
      obtain ⟨-, -, -, -, hnext⟩ := h.perform call
      exact ih hnext

/-- After any calls, the next one is answered by the store in memory, and by SQLite in whatever order it
comes upon its rows, as by the list that the core is modelled with: records in some order, and from SQLite
each with the kind that its text names. -/
theorem stores_answer_alike (calls : List RecordCall) (call : RecordCall) :
    let records := run (fun records call ↦ (RecordList.perform records call).2) [] calls
    let convos := run (fun convos call ↦ (MemConvos.perform convos call).2) ∅ calls
    let table := run (fun table call ↦ (ConversationTable.perform table call).2) .empty calls
    ∃ answer, (RecordList.perform records call).1 = .ok answer ∧
      (∃ answer', (convos.perform call).1 = .ok answer' ∧ answer'.Same answer) ∧
      ∀ scan : table.Scan, ∃ answer', (ConversationTable.perform scan.toTable call).1 = .ok answer' ∧
        answer'.Same answer.asText := by
  intro records convos table
  have hstands : Stands records convos table := stands_empty.run calls
  obtain ⟨answer, hlist, hmem, -⟩ := hstands.perform call
  refine ⟨answer, hlist, hmem, fun scan ↦ ?_⟩
  obtain ⟨answer', hlist', -, hsql, -⟩ := (hstands.scan scan).perform call
  cases hlist.symm.trans hlist'
  exact hsql

end LogosChat.Storage
