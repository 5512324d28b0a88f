import LogosChat.Cli.FileTransport
import LogosChat.Reasoning.Run

/-!
# What a consumer of the file bus receives

While frames are written one after the other and the queue has room, a file is a journal of the
publishes to it and the reader follows it.  So the consumer receives, file by file, what was published,
in the order of the file; and a poll that sees whole files leaves nothing behind.  A publish that fails
does no harm as long as nothing is written behind what there is of its frame.
-/

namespace LogosChat.Cli

open Reasoning

variable {ι : Type}

/-! ## Logs, file by file -/

def toFile (file : Place) (log : List (Place × Bytes)) : List Bytes :=
  (log.filter fun entry ↦ entry.1 = file).map Prod.snd

theorem toFile_append (file : Place) (log more : List (Place × Bytes)) :
    toFile file (log ++ more) = toFile file log ++ toFile file more := by
  rw [toFile, List.filter_append, List.map_append]
  rfl

theorem toFile_concat_self (file : Place) (log : List (Place × Bytes)) (data : Bytes) :
    toFile file (log ++ [(file, data)]) = toFile file log ++ [data] := by
  rw [toFile_append]
  simp [toFile]

theorem toFile_concat_other {file other : Place} (h : other ≠ file) (log : List (Place × Bytes))
    (data : Bytes) : toFile file (log ++ [(other, data)]) = toFile file log := by
  rw [toFile_append]
  simp [toFile, h]

theorem mem_toFile {file : Place} {log : List (Place × Bytes)} {data : Bytes} :
    data ∈ toFile file log ↔ (file, data) ∈ log := by
  simp [toFile]

theorem toFile_isPrefix {log more : List (Place × Bytes)} (h : log <+: more) (file : Place) :
    toFile file log <+: toFile file more :=
  (h.filter _).map _

/-! ## Which runs are meant -/

/-- The steps of the reader and of its consumer. -/
def BusStep.OfReader : BusStep ι → Prop
  | .look _ => True
  | .receive => True
  | .start _ _ _ _ => False
  | .write _ => False
  | .fail _ => False

/-- The file has the publishes to it, and nothing else. -/
def Bus.Whole (s : Bus ι) (file : Place) : Prop :=
  s.contents file = frameCodec.encodeAll (toFile file s.published)

namespace Directory

variable [DecidableEq ι] (D : Directory ι)

/-- A frame is begun in a file only behind whole ones and with a length that fits the header, and it is
completed only in a file that the reader's walk collects; and a payload that the reader takes finds room in
the queue. -/
def Orderly (s : Bus ι) : BusStep ι → Prop
  | .write i =>
      (∀ file data, s.writers i = .opened file data → s.Whole file ∧ data.length < 4294967296 ∧
        (data = [] → isBinFile D.root file = true)) ∧
      ∀ file data, s.writers i = .headed file data → isBinFile D.root file = true
  | .look l => ∀ file todo payload rest, s.reader = .reading file todo →
      s.frameAt file l.seen = .ok (payload, rest) → s.queue.length < queueCapacity
  | _ => True

end Directory

namespace Bus

variable {s t : Bus ι} {D : Directory ι}

/-! ## The parts of a step -/

section Parts

theorem contents_append_self (s : Bus ι) (file : Place) (bytes : Bytes) :
    (s.append file bytes).contents file = s.contents file ++ bytes := by
  rw [contents, append, AList.lookup_insert]
  rfl

theorem contents_append_other {file other : Place} (h : other ≠ file) (s : Bus ι) (bytes : Bytes) :
    (s.append file bytes).contents other = s.contents other := by
  rw [contents, append, AList.lookup_insert_ne h]
  rfl

theorem contents_append_nil (s : Bus ι) (file other : Place) :
    (s.append file []).contents other = s.contents other := by
  by_cases hother : other = file
  · rw [hother, contents_append_self, List.append_nil]
  · exact contents_append_other hother s []

theorem mem_files_append {file other : Place} {bytes : Bytes} :
    other ∈ (s.append file bytes).files ↔ other = file ∨ other ∈ s.files :=
  AList.mem_insert _

variable [DecidableEq ι]

theorem writers_setWriter (s : Bus ι) (i j : ι) (w : Writer) :
    (s.setWriter i w).writers j = if j = i then w else s.writers j :=
  Function.update_apply _ _ _ _

theorem headed_of_setWriter {i j : ι} {w : Writer} {file : Place} {data : Bytes}
    (hafter : ∀ file data, w ≠ .headed file data)
    (h : (s.setWriter i w).writers j = .headed file data) : j ≠ i ∧ s.writers j = .headed file data := by
  rw [writers_setWriter] at h
  by_cases hj : j = i
  · rw [if_pos hj] at h
    exact absurd h (hafter file data)
  · rw [if_neg hj] at h
    exact ⟨hj, h⟩

theorem opened_of_setWriter {i j : ι} {w : Writer} {file : Place} {data : Bytes}
    (hafter : ∀ file data, w ≠ .opened file data)
    (h : (s.setWriter i w).writers j = .opened file data) : s.writers j = .opened file data := by
  rw [writers_setWriter] at h
  by_cases hj : j = i
  · rw [if_pos hj] at h
    exact absurd h (hafter file data)
  · rwa [if_neg hj] at h

end Parts

/-! ## The files -/

/-- A file has the publishes to it and at most a part of one more frame, which the publish that has
written its header can complete. -/
structure Written (D : Directory ι) (s : Bus ι) : Prop where
  journal : ∀ file, frameCodec.Journal (s.contents file) (toFile file s.published)
  headed : ∀ i file data, s.writers i = .headed file data → data.length < 4294967296 ∧ file ∈ s.files ∧
    s.contents file = frameCodec.encodeAll (toFile file s.published) ++ lengthHeader data
  alone : ∀ i j file data other, s.writers i = .headed file data → s.writers j = .headed file other → i = j
  opened : ∀ i file data, s.writers i = .opened file data → file ∈ s.files
  published : ∀ file data, (file, data) ∈ s.published → isBinFile D.root file = true ∧ file ∈ s.files

theorem written_empty (D : Directory ι) : Written D empty where
  journal _ := ⟨fun _ h ↦ absurd h List.not_mem_nil, [], .inl rfl, rfl⟩
  headed _ _ _ h := by cases h
  alone _ _ _ _ _ h := by cases h
  opened _ _ _ h := by cases h
  published _ _ h := by cases h

/-- Steps that write nothing and begin no frame. -/
theorem Written.of_same (h : Written D s) (hcontents : ∀ f, t.contents f = s.contents f)
    (hfiles : ∀ f, f ∈ s.files → f ∈ t.files) (hpublished : t.published = s.published)
    (hheaded : ∀ j f d, t.writers j = .headed f d → s.writers j = .headed f d)
    (hopened : ∀ j f d, t.writers j = .opened f d → f ∈ t.files) : Written D t := by
  constructor
  · intro f
    rw [hcontents, hpublished]
    exact h.journal f
  · intro j f d hwriter
    obtain ⟨hfits, hthere, htorn⟩ := h.headed j f d (hheaded j f d hwriter)
    rw [hcontents, hpublished]
    exact ⟨hfits, hfiles f hthere, htorn⟩
  · intro j k f d other hj hk
    exact h.alone j k f d other (hheaded j f d hj) (hheaded k f other hk)
  · exact hopened
  · intro f d hmem
    rw [hpublished] at hmem
    exact (h.published f d hmem).imp_right (hfiles f)

/-- Steps of the reader and of the consumer. -/
theorem Written.of_eq (h : Written D s) (hfiles : t.files = s.files) (hwriters : t.writers = s.writers)
    (hpublished : t.published = s.published) : Written D t := by
  have hmem (f : Place) (hf : f ∈ s.files) : f ∈ t.files := by
    rw [hfiles]
    exact hf
  apply h.of_same _ hmem hpublished
  · intro j f d hwriter
    rwa [hwriters] at hwriter
  · intro j f d hwriter
    rw [hwriters] at hwriter
    exact hmem f (h.opened j f d hwriter)
  · intro f
    rw [contents, hfiles]
    rfl

/-- In a whole file no frame is begun. -/
theorem Written.not_headed (h : Written D s) {file : Place} (hwhole : s.Whole file) (j : ι) (other : Bytes) :
    s.writers j ≠ .headed file other := by
  intro hwriter
  obtain ⟨-, -, htorn⟩ := h.headed j file other hwriter
  have hlength := congrArg List.length (htorn.symm.trans hwhole)
  rw [List.length_append, length_lengthHeader] at hlength
  omega

section Writers

variable [DecidableEq ι] {i : ι} {file : Place} {data : Bytes}

theorem Written.open (h : Written D s) :
    Written D ((s.append file []).setWriter i (.opened file data)) := by
  refine h.of_same (contents_append_nil s file) (fun f hf ↦ mem_files_append.mpr (.inr hf)) rfl ?_ ?_
  · intro j f d hwriter
    exact (headed_of_setWriter (fun f d hnew ↦ by cases hnew) hwriter).2
  · intro j f d hwriter
    rw [writers_setWriter] at hwriter
    by_cases hj : j = i
    · rw [if_pos hj] at hwriter
      cases hwriter
      exact mem_files_append.mpr (.inl rfl)
    · rw [if_neg hj] at hwriter
      exact mem_files_append.mpr (.inr (h.opened j f d hwriter))

/-- What there is of its frame stays. -/
theorem Written.abandon (h : Written D s) (i : ι) : Written D (s.setWriter i .idle) := by
  refine h.of_same (fun _ ↦ rfl) (fun _ hf ↦ hf) rfl ?_ ?_
  · intro j f d hwriter
    exact (headed_of_setWriter (fun f d hnew ↦ by cases hnew) hwriter).2
  · intro j f d hwriter
    exact h.opened j f d (opened_of_setWriter (fun f d hnew ↦ by cases hnew) hwriter)

/-- The header of a payload that is still to come. -/
theorem Written.header (h : Written D s) (hopened : s.writers i = .opened file data) (hne : data ≠ [])
    (hwhole : s.Whole file) (hfits : data.length < 4294967296) :
    Written D ((s.append file (lengthHeader data)).setWriter i (.headed file data)) := by
  have hheaded {j : ι} {f : Place} {d : Bytes}
      (hwriter : ((s.append file (lengthHeader data)).setWriter i (.headed file data)).writers j =
        .headed f d) : (j = i ∧ f = file ∧ d = data) ∨ (f ≠ file ∧ s.writers j = .headed f d) := by
    rw [writers_setWriter] at hwriter
    by_cases hj : j = i
    · rw [if_pos hj] at hwriter
      cases hwriter
      exact .inl ⟨hj, rfl, rfl⟩
    · rw [if_neg hj] at hwriter
      refine .inr ⟨?_, hwriter⟩
      rintro rfl
      exact h.not_headed hwhole j d hwriter
  have hself : (s.append file (lengthHeader data)).contents file =
      frameCodec.encodeAll (toFile file s.published) ++ lengthHeader data := by
    rw [contents_append_self, hwhole]
  constructor
  · intro f
    show frameCodec.Journal ((s.append file _).contents f) _
    by_cases hf : f = file
    · subst hf
      rw [hself]
      refine ⟨(h.journal f).fits, lengthHeader data, .inr ⟨data, hfits, List.prefix_append _ _, ?_⟩, rfl⟩
      exact fun heq ↦ hne (List.self_eq_append_right.mp heq)
    · rw [contents_append_other hf]
      exact h.journal f
  · intro j f d hwriter
    show _ ∧ _ ∧ (s.append file _).contents f = _
    rcases hheaded hwriter with ⟨-, rfl, rfl⟩ | ⟨hother, hwriter⟩
    · exact ⟨hfits, mem_files_append.mpr (.inl rfl), hself⟩
    · obtain ⟨hlength, hthere, htorn⟩ := h.headed j f d hwriter
      rw [contents_append_other hother]
      exact ⟨hlength, mem_files_append.mpr (.inr hthere), htorn⟩
  · intro j k f d other hj hk
    rcases hheaded hj with ⟨rfl, rfl, -⟩ | ⟨hother, hj⟩
    · rcases hheaded hk with ⟨rfl, -, -⟩ | ⟨hother, -⟩
      · rfl
      · exact absurd rfl hother
    · rcases hheaded hk with ⟨-, heq, -⟩ | ⟨-, hk⟩
      · exact absurd heq hother
      · exact h.alone j k f d other hj hk
  · intro j f d hwriter
    have hold := opened_of_setWriter (fun f d hnew ↦ by cases hnew) hwriter
    exact mem_files_append.mpr (.inr (h.opened j f d hold))
  · intro f d hmem
    exact (h.published f d hmem).imp_right fun hthere ↦ mem_files_append.mpr (.inr hthere)

/-- The write that completes a frame, after which no other is incomplete in its file. -/
theorem Written.complete (h : Written D s) {bytes : Bytes} (hfile : isBinFile D.root file = true)
    (hfits : data.length < 4294967296)
    (hcontents : s.contents file ++ bytes =
      frameCodec.encodeAll (toFile file s.published) ++ frameCodec.encode data)
    (hfree : ∀ j other, j ≠ i → s.writers j ≠ .headed file other) :
    Written D ((s.append file bytes).finish i file data) := by
  have hheaded {j : ι} {f : Place} {d : Bytes}
      (hwriter : ((s.append file bytes).finish i file data).writers j = .headed f d) :
      f ≠ file ∧ s.writers j = .headed f d := by
    obtain ⟨hj, hwriter⟩ := headed_of_setWriter (fun f d hnew ↦ by cases hnew) hwriter
    refine ⟨?_, hwriter⟩
    rintro rfl
    exact hfree j d hj hwriter
  have hself : ((s.append file bytes).finish i file data).contents file =
      frameCodec.encodeAll (toFile file (s.published ++ [(file, data)])) := by
    show (s.append file bytes).contents file = _
    rw [contents_append_self, hcontents, toFile_concat_self, FrameCodec.encodeAll_append,
      FrameCodec.encodeAll_cons, FrameCodec.encodeAll_nil, List.append_nil]
  have hothers {f : Place} (hother : f ≠ file) :
      ((s.append file bytes).finish i file data).contents f = s.contents f ∧
        toFile f (s.published ++ [(file, data)]) = toFile f s.published :=
    ⟨contents_append_other hother s bytes, toFile_concat_other hother.symm _ _⟩
  constructor
  · intro f
    show frameCodec.Journal _ (toFile f (s.published ++ [(file, data)]))
    by_cases hf : f = file
    · subst hf
      rw [hself]
      refine ⟨fun d hmem ↦ ?_, [], .inl rfl, (List.append_nil _).symm⟩
      rw [toFile_concat_self] at hmem
      rcases List.mem_append.mp hmem with hmem | hmem
      · exact (h.journal f).fits d hmem
      · rw [List.mem_singleton.mp hmem]
        exact hfits
    · rw [(hothers hf).1, (hothers hf).2]
      exact h.journal f
  · intro j f d hwriter
    obtain ⟨hf, hwriter⟩ := hheaded hwriter
    obtain ⟨hlength, hthere, htorn⟩ := h.headed j f d hwriter
    show _ ∧ _ ∧ _ = frameCodec.encodeAll (toFile f (s.published ++ [(file, data)])) ++ _
    rw [(hothers hf).1, (hothers hf).2]
    exact ⟨hlength, mem_files_append.mpr (.inr hthere), htorn⟩
  · intro j k f d other hj hk
    exact h.alone j k f d other (hheaded hj).2 (hheaded hk).2
  · intro j f d hwriter
    have hold : (s.append file bytes).writers j = .opened f d :=
      opened_of_setWriter (fun f d hnew ↦ by cases hnew) hwriter
    exact mem_files_append.mpr (.inr (h.opened j f d hold))
  · intro f d hmem
    rcases List.mem_append.mp hmem with hmem | hmem
    · exact (h.published f d hmem).imp_right fun hthere ↦ mem_files_append.mpr (.inr hthere)
    · cases List.mem_singleton.mp hmem
      exact ⟨hfile, mem_files_append.mpr (.inl rfl)⟩

theorem Written.write (h : Written D s) (horderly : D.Orderly s (.write i)) : Written D (s.write i) := by
  rw [Bus.write]
  cases hwriter : s.writers i with
  | idle => exact h
  | opened file data =>
      obtain ⟨hwhole, hfits, hfile⟩ := horderly.1 file data hwriter
      dsimp only
      split_ifs with hempty
      · -- the header of an empty payload is the whole frame
        apply h.complete (hfile hempty) hfits
        · rw [hwhole, hempty]
          rfl
        · intro j other _
          exact h.not_headed hwhole j other
      · exact h.header hwriter hempty hwhole hfits
  | headed file data =>
      obtain ⟨hfits, -, htorn⟩ := h.headed i file data hwriter
      apply h.complete (horderly.2 file data hwriter) hfits
      · rw [htorn, List.append_assoc]
        rfl
      · intro j other hj hheaded
        exact hj (h.alone j i file other data hheaded hwriter)

end Writers

/-! ## The reader and the consumer -/

/-- What the reader has taken from the files, in its order, and where that leaves it. -/
structure Followed (s : Bus ι) (taken : List (Place × Bytes)) : Prop where
  sent : taken.map Prod.snd = s.received ++ s.queue
  offsets : ∀ file, s.offsets file = (frameCodec.encodeAll (toFile file taken)).length
  ordered : ∀ file, toFile file taken <+: toFile file s.published

variable {taken : List (Place × Bytes)} {file : Place} {todo : List Place} {payload rest : Bytes}

/-- Steps that only add to `published`. -/
theorem Followed.mono (h : Followed s taken) (hqueue : t.queue = s.queue) (hreceived : t.received = s.received)
    (hoffsets : t.offsets = s.offsets) (hpublished : s.published <+: t.published) : Followed t taken where
  sent := by rw [hqueue, hreceived, h.sent]
  offsets f := by rw [hoffsets, h.offsets f]
  ordered f := (h.ordered f).trans (toFile_isPrefix hpublished f)

theorem Followed.journal (h : Followed s taken) (hwritten : Written D s) (file : Place) :
    ∃ left, toFile file s.published = toFile file taken ++ left ∧
      frameCodec.Journal (s.contents file) (toFile file taken ++ left) := by
  obtain ⟨left, hleft⟩ := h.ordered file
  refine ⟨left, hleft.symm, ?_⟩
  rw [hleft]
  exact hwritten.journal file

theorem Followed.forward (h : Followed s taken) (hwritten : Written D s) {seen : Nat}
    (hframe : s.frameAt file seen = .ok (payload, rest)) (hroom : s.queue.length < queueCapacity) :
    Followed (s.forward file payload) (taken ++ [(file, payload)]) := by
  obtain ⟨left, hleft, hjournal⟩ := h.journal hwritten file
  rw [frameAt, h.offsets file] at hframe
  obtain ⟨others, rfl⟩ := hjournal.next hframe
  constructor
  · show _ = s.received ++ trySend s.queue payload
    rw [trySend, if_pos hroom, List.map_append, h.sent, List.append_assoc]
    rfl
  · intro f
    show Function.update s.offsets file (s.offsets file + (4 + payload.length)) f = _
    by_cases hf : f = file
    · rw [hf, Function.update_self, toFile_concat_self, FrameCodec.encodeAll_append, List.length_append,
        FrameCodec.encodeAll_cons, FrameCodec.encodeAll_nil, List.append_nil, h.offsets file]
      show _ = _ + (lengthHeader payload ++ payload).length
      rw [List.length_append, length_lengthHeader]
    · rw [Function.update_of_ne hf, toFile_concat_other (Ne.symm hf), h.offsets f]
  · intro f
    show toFile f (taken ++ [(file, payload)]) <+: toFile f s.published
    by_cases hf : f = file
    · rw [hf, toFile_concat_self, hleft]
      exact ⟨others, by rw [List.append_assoc, List.singleton_append]⟩
    · rw [toFile_concat_other (Ne.symm hf)]
      exact h.ordered f

theorem Followed.receive (h : Followed s taken) : Followed s.receive taken := by
  unfold Bus.receive
  cases hqueue : s.queue with
  | nil => exact h
  | cons payload queue =>
      refine ⟨?_, h.offsets, h.ordered⟩
      show _ = (s.received ++ [payload]) ++ queue
      rw [h.sent, hqueue, List.append_assoc, List.singleton_append]

theorem look_of_frame {root : Place} {l : Look} (hreader : s.reader = .reading file todo)
    (hframe : s.frameAt file l.seen = .ok (payload, rest)) : s.look root l = s.forward file payload := by
  rw [look, hreader]
  dsimp only
  rw [hframe]

theorem look_of_no_frame {root : Place} {l : Look} (hreader : s.reader = .reading file todo)
    (hnone : ∀ payload rest, s.frameAt file l.seen ≠ .ok (payload, rest)) :
    s.look root l = { s with reader := .walking todo } := by
  rw [look, hreader]
  dsimp only
  cases hframe : s.frameAt file l.seen with
  | ok out => exact absurd hframe (hnone out.1 out.2)
  | err e => rfl
  | panic => rfl

/-- What one turn of the reader can do. -/
theorem look_cases (root : Place) (s : Bus ι) (l : Look) :
    (∃ reader, s.look root l = { s with reader := reader }) ∨
      ∃ file todo payload rest, s.reader = .reading file todo ∧
        s.frameAt file l.seen = .ok (payload, rest) ∧ s.look root l = s.forward file payload := by
  rw [look]
  cases hreader : s.reader with
  | sleeping => exact .inl ⟨_, rfl⟩
  | walking todo =>
      cases todo with
      | nil => exact .inl ⟨_, rfl⟩
      | cons file todo =>
          dsimp only
          split_ifs
          · exact .inl ⟨_, rfl⟩
          · exact .inl ⟨_, rfl⟩
  | reading file todo =>
      dsimp only
      cases hframe : s.frameAt file l.seen with
      | ok out => exact .inr ⟨file, todo, out.1, out.2, rfl, hframe, rfl⟩
      | err e => exact .inl ⟨_, rfl⟩
      | panic => exact .inl ⟨_, rfl⟩

/-! ## Every step -/

theorem look_same (root : Place) (s : Bus ι) (l : Look) :
    (s.look root l).files = s.files ∧ (s.look root l).writers = s.writers ∧
      (s.look root l).published = s.published := by
  rcases look_cases root s l with ⟨reader, hlook⟩ | ⟨file, todo, payload, rest, -, -, hlook⟩
  all_goals
    rw [hlook]
    exact ⟨rfl, rfl, rfl⟩

theorem receive_same (s : Bus ι) :
    s.receive.files = s.files ∧ s.receive.writers = s.writers ∧ s.receive.published = s.published ∧
      s.receive.offsets = s.offsets ∧ s.receive.reader = s.reader := by
  unfold receive
  cases s.queue <;> exact ⟨rfl, rfl, rfl, rfl, rfl⟩

/-- The files are journals, and the reader follows them. -/
def Sound (D : Directory ι) (s : Bus ι) : Prop := Written D s ∧ ∃ taken, Followed s taken

theorem sound_empty (D : Directory ι) : Sound D empty :=
  ⟨written_empty D, [], rfl, fun _ ↦ rfl, fun _ ↦ List.prefix_rfl⟩

section Steps

variable [DecidableEq ι] {e : BusStep ι}

/-- The steps of the publishing instances leave the reader and its consumer alone. -/
theorem publisher_step (s : Bus ι) (he : ¬ e.OfReader) :
    (D.step s e).queue = s.queue ∧ (D.step s e).received = s.received ∧
      (D.step s e).offsets = s.offsets ∧ (D.step s e).reader = s.reader ∧
      s.published <+: (D.step s e).published := by
  cases e with
  | start i address data clock =>
      rw [Directory.step, Directory.start]
      cases s.writers i <;> exact ⟨rfl, rfl, rfl, rfl, List.prefix_rfl⟩
  | write i =>
      rw [Directory.step, write]
      cases s.writers i with
      | idle => exact ⟨rfl, rfl, rfl, rfl, List.prefix_rfl⟩
      | opened file data =>
          dsimp only
          split_ifs
          · exact ⟨rfl, rfl, rfl, rfl, List.prefix_append _ _⟩
          · exact ⟨rfl, rfl, rfl, rfl, List.prefix_rfl⟩
      | headed file data => exact ⟨rfl, rfl, rfl, rfl, List.prefix_append _ _⟩
  | fail i => exact ⟨rfl, rfl, rfl, rfl, List.prefix_rfl⟩
  | look l => exact absurd trivial he
  | receive => exact absurd trivial he

theorem Written.step (h : Written D s) (horderly : D.Orderly s e) : Written D (D.step s e) := by
  cases e with
  | start i address data clock =>
      rw [Directory.step, Directory.start]
      cases s.writers i with
      | idle => exact h.open
      | opened file data => exact h
      | headed file data => exact h
  | write i => exact h.write horderly
  | fail i => exact h.abandon i
  | look l =>
      obtain ⟨hfiles, hwriters, hpublished⟩ := look_same D.root s l
      exact h.of_eq hfiles hwriters hpublished
  | receive =>
      obtain ⟨hfiles, hwriters, hpublished, -, -⟩ := receive_same s
      exact h.of_eq hfiles hwriters hpublished

theorem Followed.step (h : Followed s taken) (hwritten : Written D s) (horderly : D.Orderly s e) :
    ∃ taken', Followed (D.step s e) taken' := by
  by_cases he : e.OfReader
  · cases e with
    | look l =>
        rcases look_cases D.root s l with ⟨reader, hlook⟩ | ⟨file, todo, payload, rest, hreader, hframe, hlook⟩
        · refine ⟨taken, ?_⟩
          rw [Directory.step, hlook]
          exact ⟨h.sent, h.offsets, h.ordered⟩
        · refine ⟨taken ++ [(file, payload)], ?_⟩
          rw [Directory.step, hlook]
          exact h.forward hwritten hframe (horderly file todo payload rest hreader hframe)
    | receive => exact ⟨taken, h.receive⟩
    | start i address data clock => exact he.elim
    | write i => exact he.elim
    | fail i => exact he.elim
  · obtain ⟨hqueue, hreceived, hoffsets, -, hpublished⟩ := publisher_step (D := D) s he
    exact ⟨taken, h.mono hqueue hreceived hoffsets hpublished⟩

theorem Sound.step (h : Sound D s) (horderly : D.Orderly s e) : Sound D (D.step s e) := by
  obtain ⟨hwritten, taken, hfollowed⟩ := h
  exact ⟨hwritten.step horderly, hfollowed.step hwritten horderly⟩

end Steps

end Bus

end LogosChat.Cli
