import LogosChat.Reasoning.Bytes
import LogosChat.Reasoning.Journal
import LogosChat.Reasoning.LittleEndian
import LogosChat.Reasoning.Paths
import Mathlib.Data.List.AList
import Mathlib.Data.List.Sort
import Mathlib.Logic.Function.Basic

/-!
# The file transport

Instances that point at one directory share a bus: a publish appends a frame to the file of its address
and of the hour, and the reader of an instance walks the files and hands every frame to its consumer.

`publish` and `poll_reader` are cut where another instance can come between: `publish` at each of its
two writes, `poll_reader` at each turn of its loops.  A write is appended as a whole.  A reader sees a
prefix of what a file holds at the time, and a directory listing, an `open` or a publish may fail.
-/

namespace LogosChat.Cli

open Reasoning

/-! ## Frames -/

/-- `(data.len() as u32).to_be_bytes()`: the low four bytes of the length, the highest first. -/
def lengthHeader (data : Bytes) : Bytes := (leBytes 4 data.length).reverse

/-- One turn of the inner loop: both `read_exact`, or an error where either finds too little. -/
def readFrame (bytes : Bytes) : Result Unit (Bytes × Bytes) :=
  if bytes.length < 4 then .err ()
  else
    let len := leNat (bytes.take 4).reverse
    let body := bytes.drop 4
    if body.length < len then .err () else .ok (body.take len, body.drop len)

@[simp] theorem length_lengthHeader (data : Bytes) : (lengthHeader data).length = 4 := by
  rw [lengthHeader, List.length_reverse, leBytes_length]

theorem readFrame_header_append {data : Bytes} (hdata : data.length < 4294967296) (rest : Bytes) :
    readFrame ((lengthHeader data ++ data) ++ rest) = .ok (data, rest) := by
  have htake : ((lengthHeader data ++ data) ++ rest).take 4 = lengthHeader data := by
    rw [List.append_assoc, List.take_left' (length_lengthHeader data)]
  have hdrop : ((lengthHeader data ++ data) ++ rest).drop 4 = data ++ rest := by
    rw [List.append_assoc, List.drop_left' (length_lengthHeader data)]
  have hlen : leNat (lengthHeader data).reverse = data.length := by
    rw [lengthHeader, List.reverse_reverse]
    exact leNat_leBytes_of_lt hdata
  have hlong : ¬ ((lengthHeader data ++ data) ++ rest).length < 4 := by
    rw [List.length_append, List.length_append, length_lengthHeader]
    omega
  have hbody : ¬ (data ++ rest).length < data.length := by
    rw [List.length_append]
    omega
  rw [readFrame, if_neg hlong, htake, hdrop, hlen]
  dsimp only
  rw [if_neg hbody, List.take_left, List.drop_left]

theorem readFrame_eq_ok {bytes data rest : Bytes} (h : readFrame bytes = .ok (data, rest)) :
    data.length < 4294967296 ∧ bytes = (lengthHeader data ++ data) ++ rest := by
  unfold readFrame at h
  dsimp only at h
  split_ifs at h with hshort hpartial
  cases h
  have hfour : (bytes.take 4).reverse.length = 4 := by
    rw [List.length_reverse, List.length_take]
    omega
  have hlt : leNat (bytes.take 4).reverse < 4294967296 := by
    have hbound := leNat_lt (bytes.take 4).reverse
    rw [hfour] at hbound
    exact hbound
  have hlen : ((bytes.drop 4).take (leNat (bytes.take 4).reverse)).length =
      leNat (bytes.take 4).reverse := by
    rw [List.length_take]
    omega
  refine ⟨by rw [hlen]; exact hlt, ?_⟩
  rw [lengthHeader, hlen, leBytes_leNat_of_length hfour, List.reverse_reverse, List.append_assoc,
    List.take_append_drop, List.take_append_drop]

def frameCodec : FrameCodec Unit Bytes UInt8 where
  encode data := lengthHeader data ++ data
  decode := readFrame
  Fits data := data.length < 4294967296
  encode_ne_nil data h := by
    have hlength := congrArg List.length h
    rw [List.length_append, length_lengthHeader, List.length_nil] at hlength
    omega
  decode_encode _ rest h := readFrame_header_append h rest
  decode_sound _ _ _ h := readFrame_eq_ok h

/-! ## The directory -/

abbrev Files := AList fun _ : Place ↦ Bytes

/-- Instances on one directory: each has its own text for it, and its own working directory. -/
structure Directory (ι : Type) where
  root : Place
  cwd : ι → Place
  transportDir : ι → String
  same : ∀ i, FsPath.resolve (cwd i) (transportDir i) = root

/-- Hours since the epoch, 0 for a clock set before it. -/
def currentHour (clock : Int) : Nat := clock.toNat / 3600

def hourFile (clock : Int) : String := toString (currentHour clock) ++ "." ++ "bin"

def Directory.publishPlace {ι : Type} (D : Directory ι) (i : ι) (address : String) (clock : Int) :
    Place :=
  FsPath.resolve (D.cwd i) (FsPath.join (FsPath.join (D.transportDir i) address) (hourFile clock))

/-- An entry with the extension `bin` of an entry of the directory. -/
def isBinFile (root place : Place) : Bool :=
  root.isPrefixOf place &&
    match place.drop root.length with
    | [_, name] => FsPath.extension name == some "bin"
    | _ => false

/-- Paths are ordered by their components, one after the other. -/
def placeLe : Place → Place → Bool
  | [], _ => true
  | _ :: _, [] => false
  | a :: p, b :: q => decide (a < b) || (a == b && placeLe p q)

/-- `listed` tells which of the files the walk comes upon: a directory that cannot be read is left out. -/
def collectBinFiles (root : Place) (files : Files) (listed : Place → Bool) : List Place :=
  (files.keys.filter fun place ↦ listed place && isBinFile root place).insertionSort fun p q ↦ placeLe p q = true

theorem mem_collectBinFiles {root place : Place} {files : Files} {listed : Place → Bool} :
    place ∈ collectBinFiles root files listed ↔
      place ∈ files ∧ listed place = true ∧ isBinFile root place = true := by
  rw [collectBinFiles, List.mem_insertionSort, List.mem_filter, Bool.and_eq_true, AList.mem_keys]

/-! ## One instance's publish, one instance's reader -/

/-- Where an instance is in `publish`. -/
inductive Writer where
  | idle
  /-- The file is open, and nothing has been written. -/
  | opened (file : Place) (data : Bytes)
  /-- The length has been written, and the payload has not. -/
  | headed (file : Place) (data : Bytes)
deriving DecidableEq

/-- Where the thread is in `poll_reader`. -/
inductive Reader where
  | sleeping
  | walking (todo : List Place)
  | reading (file : Place) (todo : List Place)
deriving DecidableEq

/-- What the reader meets at one turn: the files a listing has, whether `open` and `seek` succeed, and how
many bytes of the file it sees. -/
structure Look where
  listed : Place → Bool
  opens : Bool
  seen : Nat

/-- The files, the publishes under way, and one instance's reader and consumer.  `published` has the
publishes that returned `Ok`, each with its file, in the order of their last writes. -/
structure Bus (ι : Type) where
  files : Files
  writers : ι → Writer
  published : List (Place × Bytes)
  reader : Reader
  offsets : Place → Nat
  queue : List Bytes
  received : List Bytes

/-- `bounded(1024)`. -/
def queueCapacity : Nat := 1024

/-- `let _ = tx.try_send(payload)`. -/
def trySend (queue : List Bytes) (payload : Bytes) : List Bytes :=
  if queue.length < queueCapacity then queue ++ [payload] else queue

namespace Bus

variable {ι : Type}

/-- Nothing has been published, and the reader has not polled. -/
def empty : Bus ι where
  files := ∅
  writers _ := .idle
  published := []
  reader := .sleeping
  offsets _ := 0
  queue := []
  received := []

def contents (s : Bus ι) (file : Place) : Bytes := (s.files.lookup file).getD []

/-- A write to a file opened with `create(true).append(true)`. -/
def append (s : Bus ι) (file : Place) (bytes : Bytes) : Bus ι :=
  { s with files := s.files.insert file (s.contents file ++ bytes) }

def setWriter [DecidableEq ι] (s : Bus ι) (i : ι) (writer : Writer) : Bus ι :=
  { s with writers := Function.update s.writers i writer }

/-- `publish` returns `Ok`. -/
def finish [DecidableEq ι] (s : Bus ι) (i : ι) (file : Place) (data : Bytes) : Bus ι :=
  { s.setWriter i .idle with published := s.published ++ [(file, data)] }

/-- The next write of an instance's publish.  `write_all` of no bytes does not write, so that a publish
of an empty payload ends with its header. -/
def write [DecidableEq ι] (s : Bus ι) (i : ι) : Bus ι :=
  match s.writers i with
  | .idle => s
  | .opened file data =>
      if data = [] then (s.append file (lengthHeader data)).finish i file data
      else (s.append file (lengthHeader data)).setWriter i (.headed file data)
  | .headed file data => (s.append file data).finish i file data

/-- The frame that the reader finds in a file of which it sees `seen` bytes. -/
def frameAt (s : Bus ι) (file : Place) (seen : Nat) : Result Unit (Bytes × Bytes) :=
  readFrame (((s.contents file).take seen).drop (s.offsets file))

/-- The payload is handed over, or dropped, and the offset moves past it. -/
def forward (s : Bus ι) (file : Place) (payload : Bytes) : Bus ι :=
  { s with
    queue := trySend s.queue payload
    offsets := Function.update s.offsets file (s.offsets file + (4 + payload.length)) }

/-- One turn of `poll_reader`. -/
def look (root : Place) (s : Bus ι) (l : Look) : Bus ι :=
  match s.reader with
  | .sleeping => { s with reader := .walking (collectBinFiles root s.files l.listed) }
  | .walking [] => { s with reader := .sleeping }
  | .walking (file :: todo) =>
      if l.opens then { s with reader := .reading file todo } else { s with reader := .walking todo }
  | .reading file todo =>
      match s.frameAt file l.seen with
      | .ok (payload, _) => s.forward file payload
      | _ => { s with reader := .walking todo }

/-- The consumer takes the oldest payload of the queue, if there is one. -/
def receive (s : Bus ι) : Bus ι :=
  match s.queue with
  | [] => s
  | payload :: queue => { s with queue := queue, received := s.received ++ [payload] }

end Bus

/-! ## Steps -/

inductive BusStep (ι : Type) where
  /-- `publish` is called, and opens its file. -/
  | start (i : ι) (address : String) (data : Bytes) (clock : Int)
  | write (i : ι)
  /-- The next write of a publish fails, or the instance stops. -/
  | fail (i : ι)
  | look (l : Look)
  | receive

namespace Directory

variable {ι : Type} [DecidableEq ι] (D : Directory ι)

def start (s : Bus ι) (i : ι) (file : Place) (data : Bytes) : Bus ι :=
  match s.writers i with
  | .idle => (s.append file []).setWriter i (.opened file data)
  | _ => s

def step (s : Bus ι) : BusStep ι → Bus ι
  | .start i address data clock => start s i (D.publishPlace i address clock) data
  | .write i => s.write i
  | .fail i => s.setWriter i .idle
  | .look l => s.look D.root l
  | .receive => s.receive

end Directory

end LogosChat.Cli
