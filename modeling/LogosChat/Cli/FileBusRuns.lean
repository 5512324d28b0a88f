import LogosChat.Cli.FileBus

/-!
# Polls of the file bus

A poll lists the files, and goes through each until it finds no frame.  While it sees all there is, what
was published before it began has been taken when it ends.  The publishing instances go on meanwhile.
-/

namespace LogosChat.Cli

open Reasoning

variable {ι : Type}

/-- The payloads of each file are a prefix of those `published` has for it, and have all of `least`. -/
def Delivers (received : List Bytes) (least published : List (Place × Bytes)) : Prop :=
  ∃ tagged : List (Place × Bytes), tagged.map Prod.snd = received ∧
    ∀ file, toFile file least <+: toFile file tagged ∧ toFile file tagged <+: toFile file published

/-- The files that the poll has not finished with. -/
def Reader.todo : Reader → List Place
  | .sleeping => []
  | .walking todo => todo
  | .reading file todo => file :: todo

namespace Bus

variable {s t : Bus ι} {D : Directory ι} {least : List (Place × Bytes)} {taken : List (Place × Bytes)}

/-- The reader lists and opens every file, and sees the whole of the one it reads. -/
def SeesAll (s : Bus ι) : BusStep ι → Prop
  | .look l => (∀ file, l.listed file = true) ∧ l.opens = true ∧
      ∀ file todo, s.reader = .reading file todo → (s.contents file).length ≤ l.seen
  | _ => True

/-! ## What has been received so far -/

theorem Followed.delivers (h : Followed s taken) : Delivers s.received [] s.published := by
  refine ⟨taken.take s.received.length, ?_, fun file ↦ ⟨List.nil_prefix, ?_⟩⟩
  · rw [List.map_take, h.sent, List.take_left]
  · exact (toFile_isPrefix (List.take_prefix _ _) file).trans (h.ordered file)

/-! ## A poll -/

/-- `least` has been published, and of each file it has been taken, or the poll is still to come to it. -/
structure Covers (D : Directory ι) (s : Bus ι) (least : List (Place × Bytes)) : Prop where
  sound : Sound D s
  published : least <+: s.published
  reached : ∀ file, (frameCodec.encodeAll (toFile file least)).length ≤ s.offsets file ∨
    file ∈ s.reader.todo

theorem Covers.delivers (h : Covers D s least) (hreader : s.reader = .sleeping) (hqueue : s.queue = []) :
    Delivers s.received least s.published := by
  obtain ⟨-, taken, hfollowed⟩ := h.sound
  refine ⟨taken, ?_, fun file ↦ ⟨?_, hfollowed.ordered file⟩⟩
  · rw [hfollowed.sent, hqueue, List.append_nil]
  · have hreached : (frameCodec.encodeAll (toFile file least)).length ≤ s.offsets file := by
      rcases h.reached file with hreached | htodo
      · exact hreached
      · rw [hreader] at htodo
        cases htodo
    rw [hfollowed.offsets file] at hreached
    exact FrameCodec.isPrefix_of_length_encodeAll_le (toFile_isPrefix h.published file)
      (hfollowed.ordered file) hreached

/-- A file in which the reader, seeing the whole of it, finds no frame has been taken from entirely. -/
theorem Followed.offset_of_no_frame (h : Followed s taken) (hwritten : Written D s) {file : Place}
    {seen : Nat} (hseen : (s.contents file).length ≤ seen)
    (hnone : ∀ payload rest, s.frameAt file seen ≠ .ok (payload, rest)) :
    s.offsets file = (frameCodec.encodeAll (toFile file s.published)).length := by
  obtain ⟨left, hleft, hjournal⟩ := h.journal hwritten file
  have hnil : left = [] := by
    apply hjournal.eq_nil_of_read hseen
    intro payload rest hframe
    apply hnone payload rest
    rw [frameAt, h.offsets file]
    exact hframe
  rw [hleft, hnil, List.append_nil, h.offsets file]

/-- A turn that takes a frame leaves the poll where it is, with more taken. -/
theorem Covers.forward (h : Covers D s least) (file : Place) (payload : Bytes)
    (hnext : Sound D (s.forward file payload)) : Covers D (s.forward file payload) least := by
  refine ⟨hnext, h.published, fun f ↦ ?_⟩
  rcases h.reached f with hoffset | htodo
  · left
    apply Nat.le_trans hoffset
    show s.offsets f ≤ Function.update s.offsets file _ f
    by_cases hf : f = file
    · rw [hf, Function.update_self]
      omega
    · rw [Function.update_of_ne hf]
  · exact .inr htodo

section Steps

variable [DecidableEq ι] {e : BusStep ι}

/-- The poll that begins now comes to every file that has been published to. -/
theorem Sound.covers_of_wake (h : Sound D s) (hreader : s.reader = .sleeping) {l : Look}
    (horderly : D.Orderly s (.look l)) (hsees : s.SeesAll (.look l)) (hleast : least <+: s.published) :
    Covers D (D.step s (.look l)) least := by
  have hlook : D.step s (.look l) =
      { s with reader := .walking (collectBinFiles D.root s.files l.listed) } := by
    rw [Directory.step, look, hreader]
  have hnext : Sound D (D.step s (.look l)) := h.step horderly
  rw [hlook] at hnext ⊢
  refine ⟨hnext, hleast, fun file ↦ ?_⟩
  cases hentries : toFile file least with
  | nil => exact .inl (Nat.zero_le _)
  | cons data others =>
      have hmem : (file, data) ∈ least := mem_toFile.mp (by rw [hentries]; exact List.mem_cons_self)
      obtain ⟨hbin, hthere⟩ := h.1.published file data (hleast.subset hmem)
      exact .inr (mem_collectBinFiles.mpr ⟨hthere, hsees.1 file, hbin⟩)

theorem Covers.look (h : Covers D s least) {l : Look} (horderly : D.Orderly s (.look l))
    (hsees : s.SeesAll (.look l)) : Covers D (D.step s (.look l)) least := by
  have hnext : Sound D (s.look D.root l) := h.sound.step horderly
  have hreached := h.reached
  show Covers D (s.look D.root l) least
  cases hreader : s.reader with
  | sleeping => exact h.sound.covers_of_wake hreader horderly hsees h.published
  | walking todo =>
      rw [hreader] at hreached
      cases todo with
      | nil =>
          rw [Bus.look, hreader] at hnext ⊢
          exact ⟨hnext, h.published, hreached⟩
      | cons file todo =>
          rw [Bus.look, hreader] at hnext ⊢
          dsimp only at hnext ⊢
          rw [if_pos hsees.2.1] at hnext ⊢
          exact ⟨hnext, h.published, hreached⟩
  | reading file todo =>
      rw [hreader] at hreached
      by_cases hframe : ∃ payload rest, s.frameAt file l.seen = .ok (payload, rest)
      · obtain ⟨payload, rest, hframe⟩ := hframe
        rw [look_of_frame hreader hframe] at hnext ⊢
        exact h.forward file payload hnext
      · have hnone : ∀ payload rest, s.frameAt file l.seen ≠ .ok (payload, rest) := by
          intro payload rest heq
          exact hframe ⟨payload, rest, heq⟩
        rw [look_of_no_frame hreader hnone] at hnext ⊢
        refine ⟨hnext, h.published, fun f ↦ ?_⟩
        rcases hreached f with hoffset | htodo
        · exact .inl hoffset
        · rcases List.mem_cons.mp htodo with rfl | htodo
          · -- the poll leaves the file here: all of it has been taken
            left
            obtain ⟨hwritten, taken, hfollowed⟩ := h.sound
            show _ ≤ s.offsets f
            rw [hfollowed.offset_of_no_frame hwritten (hsees.2.2 f todo hreader) hnone]
            exact FrameCodec.length_encodeAll_le_of_isPrefix (toFile_isPrefix h.published f)
          · exact .inr htodo

/-- Only the reader's turns move the reader. -/
theorem step_of_not_look (s : Bus ι) (he : ∀ l, e ≠ .look l) :
    (D.step s e).offsets = s.offsets ∧ (D.step s e).reader = s.reader ∧
      s.published <+: (D.step s e).published := by
  by_cases hreader : e.OfReader
  · cases e with
    | look l => exact absurd rfl (he l)
    | receive =>
        obtain ⟨-, -, hpublished, hoffsets, hsame⟩ := receive_same s
        refine ⟨hoffsets, hsame, ?_⟩
        show s.published <+: s.receive.published
        rw [hpublished]
    | start i address data clock => exact hreader.elim
    | write i => exact hreader.elim
    | fail i => exact hreader.elim
  · obtain ⟨-, -, hoffsets, hsame, hpublished⟩ := publisher_step (D := D) s hreader
    exact ⟨hoffsets, hsame, hpublished⟩

theorem published_of_ofReader (he : e.OfReader) : (D.step s e).published = s.published := by
  cases e with
  | look l => exact (look_same D.root s l).2.2
  | receive => exact (receive_same s).2.2.1
  | start i address data clock => exact he.elim
  | write i => exact he.elim
  | fail i => exact he.elim

theorem Covers.step (h : Covers D s least) (horderly : D.Orderly s e) (hsees : s.SeesAll e) :
    Covers D (D.step s e) least := by
  by_cases hlook : ∃ l, e = .look l
  · obtain ⟨l, rfl⟩ := hlook
    exact h.look horderly hsees
  · obtain ⟨hoffsets, hreader, hpublished⟩ := step_of_not_look (D := D) s fun l heq ↦ hlook ⟨l, heq⟩
    refine ⟨h.sound.step horderly, h.published.trans hpublished, fun file ↦ ?_⟩
    rw [hoffsets, hreader]
    exact h.reached file

end Steps

end Bus

namespace Directory

variable [DecidableEq ι] (D : Directory ι)

def after (steps : List (BusStep ι)) : Bus ι := run D.step Bus.empty steps

/-- A step of the reader, which sees all there is, or of its consumer. -/
def Polls (s : Bus ι) (e : BusStep ι) : Prop := e.OfReader ∧ D.Orderly s e ∧ s.SeesAll e

variable {D} {s t : Bus ι} {least : List (Place × Bytes)}

theorem sound_after {steps : List (BusStep ι)} (h : Along D.step D.Orderly Bus.empty steps) :
    Bus.Sound D (D.after steps) :=
  h.invariant (fun _ _ hsound horderly ↦ hsound.step horderly) (Bus.sound_empty D)

/-- Once the reader has looked, the poll covers what had been published, and later polls keep it so. -/
theorem covers_of_polled {more : List (BusStep ι)} (hsound : Bus.Sound D s) (hreader : s.reader = .sleeping)
    (hleast : least <+: s.published)
    (halong : Along D.step (fun s e ↦ D.Orderly s e ∧ s.SeesAll e) s more)
    (hlooks : ∃ l, .look l ∈ more) :
    Bus.Covers D (run D.step s more) least := by
  -- along the steps before the first look the reader sleeps and `published` grows
  induction more generalizing s with
  | nil =>
      obtain ⟨l, hl⟩ := hlooks
      cases hl
  | cons e more ih =>
      obtain ⟨⟨horderly, hsees⟩, hrest⟩ := halong
      by_cases hlook : ∃ l, e = .look l
      · obtain ⟨l, rfl⟩ := hlook
        have hcovers : Bus.Covers D (D.step s (.look l)) least :=
          hsound.covers_of_wake hreader horderly hsees hleast
        have hkeep (s : Bus ι) (e : BusStep ι) (h : Bus.Covers D s least)
            (hstep : D.Orderly s e ∧ s.SeesAll e) : Bus.Covers D (D.step s e) least :=
          h.step hstep.1 hstep.2
        exact hrest.invariant hkeep hcovers
      · obtain ⟨-, hsame, hpublished⟩ := Bus.step_of_not_look (D := D) s fun l heq ↦ hlook ⟨l, heq⟩
        apply ih (hsound.step horderly) (hsame.trans hreader) (hleast.trans hpublished) hrest
        obtain ⟨l, hl⟩ := hlooks
        rcases List.mem_cons.mp hl with rfl | hl
        · exact absurd ⟨l, rfl⟩ hlook
        · exact ⟨l, hl⟩

/-! ## A poll can always be made -/

def Drained (s : Bus ι) : Bus ι := { s with queue := [], received := s.received ++ s.queue }

theorem canReach_drained (s : Bus ι) : CanReach D.step D.Polls s (Drained s) := by
  obtain ⟨files, writers, published, reader, offsets, queue, received⟩ := s
  induction queue generalizing received with
  | nil =>
      rw [Drained, List.append_nil]
      exact CanReach.refl _
  | cons payload queue ih =>
      have hpolls : D.Polls ⟨files, writers, published, reader, offsets, payload :: queue, received⟩
          .receive := ⟨trivial, trivial, trivial⟩
      have hmore := ih (received ++ [payload])
      rw [Drained, List.append_assoc, List.singleton_append] at hmore
      exact (CanReach.single hpolls).trans hmore

/-- A look that sees all there is of the file being read. -/
def wholeLook (s : Bus ι) : Look where
  listed _ := true
  opens := true
  seen := match s.reader with
    | .reading file _ => (s.contents file).length
    | _ => 0

/-- The consumer empties the queue, and the reader takes a turn. -/
def turn (D : Directory ι) (s : Bus ι) : Bus ι := (Drained s).look D.root (wholeLook s)

omit [DecidableEq ι] in
theorem polls_wholeLook (D : Directory ι) (s : Bus ι) : D.Polls (Drained s) (.look (wholeLook s)) := by
  refine ⟨trivial, ?_, fun _ ↦ rfl, rfl, ?_⟩
  · intro file todo payload rest _ _
    show 0 < queueCapacity
    decide
  · intro file todo hreader
    have hreading : s.reader = .reading file todo := hreader
    show (s.contents file).length ≤ (wholeLook s).seen
    rw [wholeLook, hreading]

theorem canReach_turn (D : Directory ι) (s : Bus ι) : CanReach D.step D.Polls s (turn D s) :=
  (canReach_drained s).trans (CanReach.single (polls_wholeLook D s))

theorem canReach_walking {file : Place} {todo : List Place} (n : Nat)
    (hreader : s.reader = .reading file todo) (hleft : (s.contents file).length - s.offsets file ≤ n) :
    ∃ t, CanReach D.step D.Polls s t ∧ t.reader = .walking todo := by
  -- every frame takes four bytes and more of what is left
  induction n using Nat.strong_induction_on generalizing s with
  | h n ih =>
      have hdrained : (Drained s).reader = .reading file todo := hreader
      have hseen : (wholeLook s).seen = (s.contents file).length := by
        rw [wholeLook, hreader]
      by_cases hframe : ∃ payload rest, (Drained s).frameAt file (wholeLook s).seen = .ok (payload, rest)
      · obtain ⟨payload, rest, hframe⟩ := hframe
        have hturn : turn D s = (Drained s).forward file payload := Bus.look_of_frame hdrained hframe
        have hlong : s.offsets file + 4 ≤ (s.contents file).length := by
          have hsplit := congrArg List.length (readFrame_eq_ok hframe).2
          have hvisible : (((Drained s).contents file).take (wholeLook s).seen).drop
              ((Drained s).offsets file) = (s.contents file).drop (s.offsets file) := by
            rw [hseen]
            exact congrArg (List.drop (s.offsets file)) List.take_length
          rw [hvisible, List.length_drop, List.length_append, List.length_append,
            length_lengthHeader] at hsplit
          omega
        have hoffset : (turn D s).offsets file = s.offsets file + (4 + payload.length) := by
          rw [hturn]
          exact Function.update_self _ _ _
        have hcontents : (turn D s).contents file = s.contents file := by
          rw [hturn]
          rfl
        have hstill : (turn D s).reader = .reading file todo := by
          rw [hturn]
          exact hreader
        have hless : ((turn D s).contents file).length - (turn D s).offsets file < n := by
          rw [hcontents, hoffset]
          omega
        obtain ⟨t, hreach, hwalking⟩ := ih _ hless hstill (Nat.le_refl _)
        exact ⟨t, (canReach_turn D s).trans hreach, hwalking⟩
      · have hturn : turn D s = { Drained s with reader := .walking todo } := by
          apply Bus.look_of_no_frame hdrained
          intro payload rest heq
          exact hframe ⟨payload, rest, heq⟩
        exact ⟨turn D s, canReach_turn D s, by rw [hturn]⟩

theorem canReach_sleeping_of_walking (todo : List Place) (hreader : s.reader = .walking todo) :
    ∃ t, CanReach D.step D.Polls s t ∧ t.reader = .sleeping := by
  induction todo generalizing s with
  | nil =>
      refine ⟨turn D s, canReach_turn D s, ?_⟩
      have hdrained : (Drained s).reader = .walking [] := hreader
      rw [turn, Bus.look, hdrained]
  | cons file todo ih =>
      have hreading : (turn D s).reader = .reading file todo := by
        have hdrained : (Drained s).reader = .walking (file :: todo) := hreader
        rw [turn, Bus.look, hdrained]
        rfl
      obtain ⟨r, hr, hwalking⟩ := canReach_walking (D := D) _ hreading (Nat.le_refl _)
      obtain ⟨t, ht, hsleeping⟩ := ih hwalking
      exact ⟨t, ((canReach_turn D s).trans hr).trans ht, hsleeping⟩

theorem canReach_sleeping (D : Directory ι) (s : Bus ι) :
    ∃ t, CanReach D.step D.Polls s t ∧ t.reader = .sleeping := by
  cases hreader : s.reader with
  | sleeping => exact ⟨s, CanReach.refl s, hreader⟩
  | walking todo => exact canReach_sleeping_of_walking todo hreader
  | reading file todo =>
      obtain ⟨r, hr, hwalking⟩ := canReach_walking (D := D) _ hreader (Nat.le_refl _)
      obtain ⟨t, ht, hsleeping⟩ := canReach_sleeping_of_walking (D := D) todo hwalking
      exact ⟨t, hr.trans ht, hsleeping⟩

section Reached

variable {r : Bus ι} (h : CanReach D.step D.Polls r t)
include h

theorem sound_of_canReach (hr : Bus.Sound D r) : Bus.Sound D t :=
  h.invariant (fun _ _ hsound hstep ↦ hsound.step hstep.2.1) hr

theorem published_of_canReach : t.published = r.published := by
  have hkeep (q : Bus ι) (e : BusStep ι) (hq : q.published = r.published) (hstep : D.Polls q e) :
      (D.step q e).published = r.published := (Bus.published_of_ofReader hstep.1).trans hq
  have hend := h.invariant hkeep rfl
  exact hend

theorem covers_of_canReach (hr : Bus.Covers D r least) : Bus.Covers D t least := by
  have hkeep (q : Bus ι) (e : BusStep ι) (hq : Bus.Covers D q least) (hstep : D.Polls q e) :
      Bus.Covers D (D.step q e) least := hq.step hstep.2.1 hstep.2.2
  have hend := h.invariant hkeep hr
  exact hend

end Reached

/-- From every state the reader and the consumer alone can bring all that was published to the consumer. -/
theorem canReach_delivered (hsound : Bus.Sound D s) :
    ∃ t, CanReach D.step D.Polls s t ∧ Delivers t.received s.published s.published := by
  -- the poll under way ends, a new one begins and ends, and the consumer empties the queue
  obtain ⟨r, hr, hasleep⟩ := canReach_sleeping D s
  have hdrained := hr.trans (canReach_drained r)
  have hcovers : Bus.Covers D (turn D r) s.published := by
    obtain ⟨-, horderly, hsees⟩ := polls_wholeLook D r
    apply (sound_of_canReach hdrained hsound).covers_of_wake hasleep horderly hsees
    rw [published_of_canReach hdrained]
  obtain ⟨t, ht, hagain⟩ := canReach_sleeping D (turn D r)
  have hrest := ht.trans (canReach_drained t)
  have hwhole := (hr.trans (canReach_turn D r)).trans hrest
  have hdelivers := (covers_of_canReach hrest hcovers).delivers hagain rfl
  rw [published_of_canReach hwhole] at hdelivers
  exact ⟨Drained t, hwhole, hdelivers⟩

/-! ## The bus -/

/-- In every run whose steps are orderly, the consumer has received, of each file, payloads published to
it, once each, unaltered and in the order of the file.  Whenever the reader has then made a poll that saw
all there was, and the consumer has emptied the queue, all that was published before is among them; and
such a poll can be made from wherever the run is. -/
theorem consumer_receives_published (D : Directory ι) (steps : List (BusStep ι))
    (h : Along D.step D.Orderly Bus.empty steps) :
    Delivers (D.after steps).received [] (D.after steps).published ∧
      (∀ more, (D.after steps).reader = .sleeping →
        Along D.step (fun s e ↦ D.Orderly s e ∧ s.SeesAll e) (D.after steps) more →
        (∃ l, .look l ∈ more) → (D.after (steps ++ more)).reader = .sleeping →
        (D.after (steps ++ more)).queue = [] →
        Delivers (D.after (steps ++ more)).received (D.after steps).published
          (D.after (steps ++ more)).published) ∧
      ∃ more, Along D.step D.Polls (D.after steps) more ∧
        Delivers (D.after (steps ++ more)).received (D.after steps).published
          (D.after steps).published := by
  have hsound := sound_after h
  refine ⟨?_, ?_, ?_⟩
  · obtain ⟨-, taken, hfollowed⟩ := hsound
    exact hfollowed.delivers
  · intro more hreader halong hlooks hasleep hqueue
    have hcovers := covers_of_polled hsound hreader List.prefix_rfl halong hlooks
    rw [after, run_append] at hasleep hqueue ⊢
    exact hcovers.delivers hasleep hqueue
  · obtain ⟨t, ⟨more, halong, hrun⟩, hdelivers⟩ := canReach_delivered hsound
    refine ⟨more, halong, ?_⟩
    have hafter : D.after (steps ++ more) = t := by
      rw [← hrun, after, run_append]
      rfl
    rw [hafter]
    exact hdelivers

/-! ## Two instances on one directory -/

def shared : Directory Bool where
  root := ["bus"]
  cwd _ := []
  transportDir _ := "/bus"
  same _ := by decide

def glance : Look := ⟨fun _ ↦ true, true, 64⟩

/-- One publish after the other, one that fails in a file of its own, a poll, and a receive for each. -/
def inTurn : List (BusStep Bool) :=
  [.start false "a" [1] 0, .write false, .write false, .start true "b" [3] 0, .write true, .fail true,
    .start true "a" [2] 0, .write true, .write true, .look glance, .look glance, .look glance, .look glance,
    .look glance, .look glance, .look glance, .receive, .receive]

theorem inTurn_received :
    Delivers (shared.after inTurn).received [] (shared.after inTurn).published ∧
      (shared.after inTurn).received = [[1], [2]] := by
  refine ⟨(consumer_receives_published shared inTurn ?_).1, by decide⟩
  have hheader {s : Bus Bool} {i : Bool} {file : Place} {data : Bytes}
      (hopened : s.writers i = .opened file data) (hwhole : s.Whole file)
      (hfits : 0 < data.length ∧ data.length < 4294967296) : shared.Orderly s (.write i) := by
    refine ⟨fun f d hwriter ↦ ?_, fun f d hwriter ↦ ?_⟩
    · cases hopened.symm.trans hwriter
      exact ⟨hwhole, hfits.2, fun hempty ↦ absurd hfits.1 (by simp [hempty])⟩
    · cases hopened.symm.trans hwriter
  have hpayload {s : Bus Bool} {i : Bool} {file : Place} {data : Bytes}
      (hheaded : s.writers i = .headed file data) (hfile : isBinFile shared.root file = true) :
      shared.Orderly s (.write i) := by
    refine ⟨fun f d hwriter ↦ ?_, fun f d hwriter ↦ ?_⟩
    · cases hheaded.symm.trans hwriter
    · cases hheaded.symm.trans hwriter
      exact hfile
  have hroom (s : Bus Bool) (l : Look) (hqueue : s.queue.length < queueCapacity) :
      shared.Orderly s (.look l) := fun _ _ _ _ _ _ ↦ hqueue
  exact ⟨trivial, hheader rfl rfl (by decide), hpayload rfl (by decide), trivial,
    hheader rfl rfl (by decide), trivial, trivial, hheader rfl rfl (by decide), hpayload rfl (by decide),
    hroom _ _ (by decide), hroom _ _ (by decide), hroom _ _ (by decide), hroom _ _ (by decide),
    hroom _ _ (by decide), hroom _ _ (by decide), hroom _ _ (by decide), trivial, trivial, trivial⟩

/-- Both headers before both payloads: the reader takes the first byte of the second header for the
first payload, and waits for 257 bytes. -/
def crossed : List (BusStep Bool) :=
  [.start false "a" [1] 0, .start true "a" [2] 0, .write false, .write true, .write false, .write true,
    .look glance, .look glance, .look glance, .look glance, .look glance, .receive]

theorem crossed_frames_altered :
    (shared.after crossed).published.map Prod.snd = [[1], [2]] ∧
      (shared.after crossed).reader = .sleeping ∧ (shared.after crossed).queue = [] ∧
      (shared.after crossed).received = [[0]] := by
  decide

end Directory

end LogosChat.Cli
