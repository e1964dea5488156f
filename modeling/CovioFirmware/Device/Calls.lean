import CovioFirmware.Crash.Program
import CovioFirmware.Device.Records
import CovioFirmware.Device.SegmentName
import Mathlib.Data.List.AList

/-!
# The device and its surroundings

Everything the firmware does to the outside world is one of the calls below: the
operations of `StorageBackend` (`storage_backend.h`), the direct uses of LittleFS
in `queue.h` and `totalizer.h`, the pulse counter, the uptime clock and the HTTP
client.  A firmware routine is a program over these calls (`Fw`).

## Reading the file system

Opening a file for reading, asking for its size, seeking and reading cannot
change anything, and nothing else runs while the firmware does it.  The routines
that only read (`pending`, `ackThrough`'s walk, the boot scans, the slot loads)
therefore take the current contents with the single call `files`.  The bounded
reads of `adoptValidRows_` go through `StorageBackend::readAt`, whose answer may
be short, and keep their own call.

## What a call may do

A call that succeeds does what its name says.  Where the environment `E` lets it
fail, an open or a truncate fails without effect, an append lands a strict prefix
of its bytes and reports it, and a whole-file write leaves contents that fail
every check recovery makes of that file (`Unreadable`).

A power cut during an append leaves at most as many bytes as were being appended
behind the old contents, a cut during a truncate leaves at most the old length,
and a cut during a whole-file write leaves an `Unreadable` file.  No cut touches
any other file.  Which bytes are left is up to the environment (`tears`); the
results that hold for arbitrary ones are stated for arbitrary ones.

`done` is a history: the whole-file writes that completed, newest first.  Nothing
in the firmware reads it.
-/

namespace CovioFirmware
namespace Device

open Crash

/-- File contents. -/
abbrev Data := List UInt8

/-- The files the firmware uses.  The two slots of a record are told apart by the
parity of the write numbers that go to them: `true` is slot `A`. -/
inductive Path where
  /-- `/totA.bin`, `/totB.bin`. -/
  | tot (odd : Bool) : Path
  /-- `/queue/ackA.bin`, `/queue/ackB.bin`. -/
  | ack (odd : Bool) : Path
  /-- `/queue/failA.bin`, `/queue/failB.bin`. -/
  | fail (odd : Bool) : Path
  /-- `/queue/seg_NNNNNN.bin`. -/
  | seg (id : ℕ) : Path
  deriving DecidableEq

/-- The base name of a file of the `/queue` directory. -/
def Path.queueName : Path → Option (List Char)
  | .tot _ => none
  | .ack true => some "ackA.bin".toList
  | .ack false => some "ackB.bin".toList
  | .fail true => some "failA.bin".toList
  | .fail false => some "failB.bin".toList
  | .seg id => some (segmentName id)

/-- The contents of the flash, with the history of completed whole-file
writes. -/
structure Flash where
  /-- The files that exist. -/
  files : AList fun _ : Path => Data
  /-- The whole-file writes that completed, newest first. -/
  done : List (Path × Data)

namespace Flash

/-- The contents of a file, `none` if it does not exist. -/
def file (f : Flash) (p : Path) : Option Data := f.files.lookup p

/-- Gives a file new contents, or removes it. -/
def set (f : Flash) (p : Path) : Option Data → Flash
  | some b => { f with files := f.files.insert p b }
  | none => { f with files := f.files.erase p }

/-- A factory-fresh flash. -/
def empty : Flash := ⟨∅, []⟩

@[simp] theorem file_empty : empty.file = fun _ => none := rfl

@[simp] theorem file_set (f : Flash) (p : Path) (c : Option Data) :
    (f.set p c).file = Function.update f.file p c := by
  funext q
  by_cases h : q = p
  · subst h
    rw [Function.update_self]
    cases c with
    | none => exact AList.lookup_erase q f.files
    | some b => exact AList.lookup_insert f.files
  · rw [Function.update_of_ne h]
    cases c with
    | none => exact AList.lookup_erase_ne h
    | some b => exact AList.lookup_insert_ne h

@[simp] theorem done_set (f : Flash) (p : Path) (c : Option Data) : (f.set p c).done = f.done := by
  cases c <;> rfl

/-- The base names in the `/queue` directory. -/
def queueDir (f : Flash) : List (List Char) := f.files.keys.filterMap Path.queueName

theorem mem_queueDir {f : Flash} {n : List Char} :
    n ∈ f.queueDir ↔ ∃ p, f.file p ≠ none ∧ p.queueName = some n := by
  simp only [queueDir, List.mem_filterMap, ← AList.mem_keys, ← AList.lookup_isSome,
    Option.isSome_iff_ne_none, file]

end Flash

/-- Contents of a slot that recovery rejects; for a checkpoint slot, in both
formats. -/
def Unreadable : Path → Option Data → Prop
  | .tot _, c => loadSlot c = none
  | .ack _, c => AckRec.kind.loadWhole c = none
  | .fail _, c => FailureState.kind.loadWhole c = none
  | .seg _, _ => True

/-- An HTTP answer: the status code (negative when the exchange failed) and the
body. -/
structure HttpReply where
  code : ℤ
  body : List Char

/-- The calls of the firmware. -/
inductive Call where
  /-- The present contents of all files. -/
  | files : Call
  | appendOpenSize (p : Path) : Call
  | truncateTo (p : Path) (toSize : ℕ) : Call
  | appendWrite (p : Path) (data : Data) : Call
  | readAt (p : Path) (offset len : ℕ) : Call
  | writeWhole (p : Path) (data : Data) : Call
  | remove (p : Path) : Call
  /-- Listing the `/queue` directory. -/
  | openDir : Call
  /-- `pcnt_get_counter_value`, as the `uint16_t` every caller converts it to. -/
  | pcntGet : Call
  | pcntClear : Call
  | millis : Call
  /-- `WiFi.status() == WL_CONNECTED`. -/
  | online : Call
  /-- `http.begin`. -/
  | httpBegin : Call
  /-- `http.POST` of a batch of rows to the push endpoint. -/
  | post (batch : List QRow) : Call
  /-- `http.GET` of the configuration. -/
  | get : Call
  /-- `esp_random`. -/
  | random : Call
  /-- `ota.confirmHealthyBoot()` and `ota.poll(..)`, which act on nothing the
  routines here read. -/
  | confirmHealthyBoot : Call
  | otaPoll : Call
  deriving DecidableEq

/-- The answers. -/
def Call.Reply : Call → Type
  | .files => Path → Option Data
  | .appendOpenSize _ => Option ℕ
  | .truncateTo _ _ => Bool
  | .appendWrite _ _ => Option ℕ
  | .readAt _ _ _ => Option Data
  | .writeWhole _ _ => Bool
  | .remove _ => Unit
  | .openDir => List (List Char)
  | .pcntGet => UInt16
  | .pcntClear => Unit
  | .millis => UInt32
  | .online => Bool
  | .httpBegin => Bool
  | .post _ => HttpReply
  | .get => HttpReply
  | .random => UInt32
  | .confirmHealthyBoot => Unit
  | .otaPoll => Unit

/-- Firmware routines. -/
abbrev Fw := Prog Call Call.Reply

/-! The calls as routines of their own. -/

namespace Fw

variable {α : Type}

def files : Fw (Path → Option Data) := Prog.lift Call.files
def appendOpenSize (p : Path) : Fw (Option ℕ) := Prog.lift (Call.appendOpenSize p)
def truncateTo (p : Path) (toSize : ℕ) : Fw Bool := Prog.lift (Call.truncateTo p toSize)
def appendWrite (p : Path) (data : Data) : Fw (Option ℕ) := Prog.lift (Call.appendWrite p data)
def readAt (p : Path) (offset len : ℕ) : Fw (Option Data) := Prog.lift (Call.readAt p offset len)
def writeWhole (p : Path) (data : Data) : Fw Bool := Prog.lift (Call.writeWhole p data)
def remove (p : Path) : Fw Unit := Prog.lift (Call.remove p)
def openDir : Fw (List (List Char)) := Prog.lift Call.openDir
def pcntGet : Fw UInt16 := Prog.lift Call.pcntGet
def pcntClear : Fw Unit := Prog.lift Call.pcntClear
def millis : Fw UInt32 := Prog.lift Call.millis
def online : Fw Bool := Prog.lift Call.online
def httpBegin : Fw Bool := Prog.lift Call.httpBegin
def post (batch : List QRow) : Fw HttpReply := Prog.lift (Call.post batch)
def get : Fw HttpReply := Prog.lift Call.get
def random : Fw UInt32 := Prog.lift Call.random
def confirmHealthyBoot : Fw Unit := Prog.lift Call.confirmHealthyBoot
def otaPoll : Fw Unit := Prog.lift Call.otaPoll

@[simp] theorem files_bind (f : (Path → Option Data) → Fw α) :
    (files >>= f) = .call .files f := rfl

@[simp] theorem appendOpenSize_bind (p : Path) (f : Option ℕ → Fw α) :
    (appendOpenSize p >>= f) = .call (.appendOpenSize p) f := rfl

@[simp] theorem truncateTo_bind (p : Path) (toSize : ℕ) (f : Bool → Fw α) :
    (truncateTo p toSize >>= f) = .call (.truncateTo p toSize) f := rfl

@[simp] theorem appendWrite_bind (p : Path) (data : Data) (f : Option ℕ → Fw α) :
    (appendWrite p data >>= f) = .call (.appendWrite p data) f := rfl

@[simp] theorem readAt_bind (p : Path) (offset len : ℕ) (f : Option Data → Fw α) :
    (readAt p offset len >>= f) = .call (.readAt p offset len) f := rfl

@[simp] theorem writeWhole_bind (p : Path) (data : Data) (f : Bool → Fw α) :
    (writeWhole p data >>= f) = .call (.writeWhole p data) f := rfl

@[simp] theorem remove_bind (p : Path) (f : Unit → Fw α) :
    (remove p >>= f) = .call (.remove p) f := rfl

@[simp] theorem openDir_bind (f : List (List Char) → Fw α) :
    (openDir >>= f) = .call .openDir f := rfl

@[simp] theorem pcntGet_bind (f : UInt16 → Fw α) :
    (pcntGet >>= f) = .call .pcntGet f := rfl

@[simp] theorem pcntClear_bind (f : Unit → Fw α) :
    (pcntClear >>= f) = .call .pcntClear f := rfl

@[simp] theorem millis_bind (f : UInt32 → Fw α) :
    (millis >>= f) = .call .millis f := rfl

@[simp] theorem online_bind (f : Bool → Fw α) :
    (online >>= f) = .call .online f := rfl

@[simp] theorem httpBegin_bind (f : Bool → Fw α) :
    (httpBegin >>= f) = .call .httpBegin f := rfl

@[simp] theorem post_bind (batch : List QRow) (f : HttpReply → Fw α) :
    (post batch >>= f) = .call (.post batch) f := rfl

@[simp] theorem get_bind (f : HttpReply → Fw α) :
    (get >>= f) = .call .get f := rfl

@[simp] theorem random_bind (f : UInt32 → Fw α) :
    (random >>= f) = .call .random f := rfl

@[simp] theorem confirmHealthyBoot_bind (f : Unit → Fw α) :
    (confirmHealthyBoot >>= f) = .call .confirmHealthyBoot f := rfl

@[simp] theorem otaPoll_bind (f : Unit → Fw α) :
    (otaPoll >>= f) = .call .otaPoll f := rfl

end Fw

/-- The part of the surroundings the firmware does not control: which calls may
succeed or fail, and how the server, in a state `ε`, answers a push. -/
structure Env (ε : Type) where
  succeeds : Call → ε → Prop
  fails : Call → ε → Prop
  /-- `tears data junk`: of the bytes `data` that a call was appending, or cutting
  off, when power was lost, `junk` may be left. -/
  tears : Data → Data → Prop
  /-- `serve batch e r e'`: the push may be answered `r` and leave the server in
  `e'`. -/
  serve : List QRow → ε → HttpReply → ε → Prop
  /-- What the push may do to the server when the device loses power meanwhile. -/
  serveCut : List QRow → ε → ε → Prop

/-- Flash and server. -/
structure World (ε : Type) where
  flash : Flash
  peer : ε

variable {ε : Type}

/-- Gives a file new contents, or removes it. -/
def World.set (w : World ε) (p : Path) (c : Option Data) : World ε :=
  { w with flash := w.flash.set p c }

/-- A completed whole-file write. -/
def World.write (w : World ε) (p : Path) (data : Data) : World ε :=
  { w with flash := { w.flash.set p (some data) with done := (p, data) :: w.flash.done } }

/-- The contents of a file. -/
abbrev World.file (w : World ε) : Path → Option Data := w.flash.file

@[simp] theorem World.file_set (w : World ε) (p : Path) (c : Option Data) :
    (w.set p c).file = Function.update w.file p c := Flash.file_set w.flash p c

@[simp] theorem World.file_write (w : World ε) (p : Path) (data : Data) :
    (w.write p data).file = Function.update w.file p (some data) :=
  Flash.file_set w.flash p (some data)

@[simp] theorem World.done_set (w : World ε) (p : Path) (c : Option Data) :
    (w.set p c).flash.done = w.flash.done := Flash.done_set w.flash p c

@[simp] theorem World.done_write (w : World ε) (p : Path) (data : Data) :
    (w.write p data).flash.done = (p, data) :: w.flash.done := rfl

@[simp] theorem World.peer_set (w : World ε) (p : Path) (c : Option Data) :
    (w.set p c).peer = w.peer := rfl

@[simp] theorem World.peer_write (w : World ε) (p : Path) (data : Data) :
    (w.write p data).peer = w.peer := rfl

/-- What an append adds to: the present contents, empty if the file is new. -/
def World.old (w : World ε) (p : Path) : Data := (w.file p).getD []

/-- POSIX `truncate`: shortens, or extends with zeros. -/
def truncated (b : Data) (n : ℕ) : Data := b.take n ++ List.replicate (n - b.length) 0

/-- The answers and effects of completed calls. -/
def reply (E : Env ε) : (c : Call) → World ε → c.Reply → World ε → Prop
  | .files, w, r, w' => r = w.file ∧ w' = w
  | .appendOpenSize p, w, r, w' =>
      (E.succeeds (.appendOpenSize p) w.peer ∧ r = some (w.old p).length ∧
        w' = w.set p (some (w.old p))) ∨
      (E.fails (.appendOpenSize p) w.peer ∧ r = none ∧ w' = w)
  | .truncateTo p n, w, r, w' =>
      (E.succeeds (.truncateTo p n) w.peer ∧ ∃ b, w.file p = some b ∧ r = true ∧
        w' = w.set p (some (truncated b n))) ∨
      ((E.fails (.truncateTo p n) w.peer ∨ w.file p = none) ∧ r = false ∧ w' = w)
  | .appendWrite p data, w, r, w' =>
      (E.succeeds (.appendWrite p data) w.peer ∧ r = some data.length ∧
        w' = w.set p (some (w.old p ++ data))) ∨
      (E.fails (.appendWrite p data) w.peer ∧
        ((r = none ∧ w' = w) ∨
          ∃ k < data.length, r = some k ∧ w' = w.set p (some (w.old p ++ data.take k))))
  | .readAt p offset len, w, r, w' =>
      w' = w ∧
      ((E.succeeds (.readAt p offset len) w.peer ∧
          r = (w.file p).map fun b => (b.drop offset).take len) ∨
        (E.fails (.readAt p offset len) w.peer ∧
          (r = none ∨ ∃ k, r = (w.file p).map fun b => ((b.drop offset).take len).take k)))
  | .writeWhole p data, w, r, w' =>
      (E.succeeds (.writeWhole p data) w.peer ∧ r = true ∧ w' = w.write p data) ∨
      (E.fails (.writeWhole p data) w.peer ∧ r = false ∧
        ∃ c, Unreadable p c ∧ w' = w.set p c)
  | .remove p, w, _, w' => w' = w.set p none
  | .openDir, w, r, w' => List.Perm r w.flash.queueDir ∧ w' = w
  | .pcntGet, w, _, w' => w' = w
  | .pcntClear, w, _, w' => w' = w
  | .millis, w, _, w' => w' = w
  | .online, w, _, w' => w' = w
  | .httpBegin, w, _, w' => w' = w
  | .get, w, _, w' => w' = w
  | .random, w, _, w' => w' = w
  | .confirmHealthyBoot, w, _, w' => w' = w
  | .otaPoll, w, _, w' => w' = w
  | .post batch, w, r, w' => w'.flash = w.flash ∧ E.serve batch w.peer r w'.peer

/-- What power lost inside a call may leave. -/
def torn (E : Env ε) : Call → World ε → World ε → Prop
  | .appendOpenSize p, w, w' => w' = w.set p (some (w.old p))
  | .truncateTo p n, w, w' =>
      ∃ junk : Data, junk.length ≤ (w.old p).length - n ∧ E.tears ((w.old p).drop n) junk ∧
        w' = w.set p (some ((w.old p).take n ++ junk))
  | .appendWrite p data, w, w' =>
      ∃ junk : Data, junk.length ≤ data.length ∧ E.tears data junk ∧
        w' = w.set p (some (w.old p ++ junk))
  | .writeWhole p _, w, w' => ∃ c, Unreadable p c ∧ w' = w.set p c
  | .remove p, w, w' => w' = w.set p none
  | .post batch, w, w' => w'.flash = w.flash ∧ E.serveCut batch w.peer w'.peer
  | _, w, w' => w' = w

/-- The semantics of firmware routines in an environment. -/
def sem (E : Env ε) : Sem Call Call.Reply (World ε) := ⟨reply E, torn E⟩

/-- The file system works and there is no server: every push fails. -/
def Env.calm : Env Unit where
  succeeds _ _ := True
  fails _ _ := False
  tears _ _ := True
  serve _ e r e' := r = ⟨-1, []⟩ ∧ e' = e
  serveCut _ e e' := e' = e

/-- Every storage call may succeed or fail. -/
def Env.flaky : Env Unit where
  succeeds _ _ := True
  fails _ _ := True
  tears _ _ := True
  serve _ e r e' := r = ⟨-1, []⟩ ∧ e' = e
  serveCut _ e e' := e' = e

/-- The storage calls of an environment do not fail. -/
def Env.Reliable (E : Env ε) : Prop := ∀ c e, ¬ E.fails c e

/-- Its bounded reads do not fail. -/
def Env.Reads (E : Env ε) : Prop := ∀ p offset len e, ¬ E.fails (.readAt p offset len) e

theorem Env.Reliable.reads {E : Env ε} (hE : E.Reliable) : E.Reads := fun _ _ _ _ => hE _ _

theorem Env.calm_reliable : Env.calm.Reliable := fun _ _ h => h

/-! ## One answer to every call -/

/-- What a call answers when the calls in `faulty` fail and all others succeed: a
failing append lands nothing, a failing whole-file write leaves no file, the
directory is listed in the order of the file table, the counter stands at zero
and there is no server. -/
def respond (faulty : Call → Bool) : (c : Call) → World ε → c.Reply × World ε
  | .files, w => (w.file, w)
  | .appendOpenSize p, w =>
      if faulty (.appendOpenSize p) then (none, w)
      else (some (w.old p).length, w.set p (some (w.old p)))
  | .truncateTo p n, w =>
      match w.file p with
      | none => (false, w)
      | some b =>
          if faulty (.truncateTo p n) then (false, w)
          else (true, w.set p (some (truncated b n)))
  | .appendWrite p data, w =>
      if faulty (.appendWrite p data) then (none, w)
      else (some data.length, w.set p (some (w.old p ++ data)))
  | .readAt p offset len, w =>
      if faulty (.readAt p offset len) then (none, w)
      else ((w.file p).map fun b => (b.drop offset).take len, w)
  | .writeWhole p data, w =>
      if faulty (.writeWhole p data) then (false, w.set p none) else (true, w.write p data)
  | .remove p, w => ((), w.set p none)
  | .openDir, w => (w.flash.queueDir, w)
  | .pcntGet, w => ((0 : UInt16), w)
  | .pcntClear, w => ((), w)
  | .millis, w => ((0 : UInt32), w)
  | .online, w => (true, w)
  | .httpBegin, w => (true, w)
  | .get, w => (⟨-1, []⟩, w)
  | .random, w => ((0 : UInt32), w)
  | .confirmHealthyBoot, w => ((), w)
  | .otaPoll, w => ((), w)
  | .post _, w => (⟨-1, []⟩, w)

theorem unreadable_none (p : Path) : Unreadable p none := by
  cases p <;> simp [Unreadable, loadSlot, loadLegacy]

@[simp] theorem respond_peer (faulty : Call → Bool) (c : Call) (w : World ε) :
    (respond faulty c w).2.peer = w.peer := by
  cases c <;> simp only [respond] <;> (repeat' split) <;> rfl

theorem respond_reply {E : Env ε} {faulty : Call → Bool} {w : World ε}
    (hf : ∀ c, faulty c = true → E.fails c w.peer)
    (hs : ∀ c, faulty c = false → E.succeeds c w.peer)
    (hpost : ∀ b, E.serve b w.peer ⟨-1, []⟩ w.peer) (c : Call) :
    (sem E).post c w (respond faulty c w).1 (respond faulty c w).2 := by
  change reply E c w _ _
  cases c with
  | files => exact ⟨rfl, rfl⟩
  | appendOpenSize p =>
    simp only [respond]
    by_cases h : faulty (.appendOpenSize p)
    · rw [if_pos h]
      exact .inr ⟨hf _ h, rfl, rfl⟩
    · rw [if_neg h]
      exact .inl ⟨hs _ (by simpa using h), rfl, rfl⟩
  | truncateTo p n =>
    simp only [respond]
    cases hb : w.file p with
    | none => exact .inr ⟨.inr hb, rfl, rfl⟩
    | some b =>
      by_cases h : faulty (.truncateTo p n)
      · simp only [h, if_true]
        exact .inr ⟨.inl (hf _ h), rfl, rfl⟩
      · simp only [h]
        exact .inl ⟨hs _ (by simpa using h), b, hb, rfl, rfl⟩
  | appendWrite p data =>
    simp only [respond]
    by_cases h : faulty (.appendWrite p data)
    · rw [if_pos h]
      exact .inr ⟨hf _ h, .inl ⟨rfl, rfl⟩⟩
    · rw [if_neg h]
      exact .inl ⟨hs _ (by simpa using h), rfl, rfl⟩
  | readAt p offset len =>
    simp only [respond]
    by_cases h : faulty (.readAt p offset len)
    · rw [if_pos h]
      exact ⟨rfl, .inr ⟨hf _ h, .inl rfl⟩⟩
    · rw [if_neg h]
      exact ⟨rfl, .inl ⟨hs _ (by simpa using h), rfl⟩⟩
  | writeWhole p data =>
    simp only [respond]
    by_cases h : faulty (.writeWhole p data)
    · rw [if_pos h]
      exact .inr ⟨hf _ h, rfl, none, unreadable_none p, rfl⟩
    · rw [if_neg h]
      exact .inl ⟨hs _ (by simpa using h), rfl, rfl⟩
  | remove p => exact rfl
  | openDir => exact ⟨List.Perm.refl _, rfl⟩
  | pcntGet => exact rfl
  | pcntClear => exact rfl
  | millis => exact rfl
  | online => exact rfl
  | httpBegin | get | random | confirmHealthyBoot | otaPoll => exact rfl
  | post batch => exact ⟨rfl, hpost _⟩

/-- A routine run with those answers. -/
def execute {α : Type} (faulty : Call → Bool) (p : Fw α) (w : World ε) : α × World ε :=
  p.exec (respond faulty) w

/-- With a server out of reach, every choice of failing calls the environment
allows in its present state is a run. -/
theorem execute_runs_of {α : Type} (E : Env ε) (faulty : Call → Bool) {e : ε}
    (hf : ∀ c, faulty c = true → E.fails c e) (hs : ∀ c, faulty c = false → E.succeeds c e)
    (hpost : ∀ b, E.serve b e ⟨-1, []⟩ e) (p : Fw α) {w : World ε} (hw : w.peer = e) :
    Runs (sem E) p w (execute faulty p w).1 (execute faulty p w).2 := by
  refine Prog.exec_runs (I := fun w => w.peer = e) ?_ p hw
  rintro c w rfl
  exact ⟨respond_reply hf hs hpost c, respond_peer faulty c w⟩

/-- Every routine has a run on a working file system. -/
theorem execute_runs {α : Type} (p : Fw α) (w : World Unit) :
    Runs (sem Env.calm) p w (execute (fun _ => false) p w).1 (execute (fun _ => false) p w).2 :=
  execute_runs_of Env.calm _ (by simp) (fun _ _ => trivial) (fun _ => ⟨rfl, rfl⟩) p rfl

/-- Every choice of failing calls is a run of a flaky file system. -/
theorem execute_runs_flaky {α : Type} (faulty : Call → Bool) (p : Fw α) (w : World Unit) :
    Runs (sem Env.flaky) p w (execute faulty p w).1 (execute faulty p w).2 :=
  execute_runs_of Env.flaky _ (fun _ _ => trivial) (fun _ _ => trivial) (fun _ => ⟨rfl, rfl⟩) p rfl

/-! ## One rule per call -/

section Rules

variable {E : Env ε} {α : Type} {Q : α → World ε → Prop} {C : World ε → Prop} {w : World ε}

theorem wp_files {k : (Path → Option Data) → Fw α} (h : wp (sem E) (k w.file) Q C w) :
    wp (sem E) (.call .files k) Q C w := by
  refine wp_call (wp_here h) ?_ ?_
  · rintro _ rfl
    exact wp_here h
  · rintro r _ ⟨rfl, rfl⟩
    exact h

/-- A call that only reads a peripheral or the radio. -/
theorem wp_sense {c : Call} {k : c.Reply → Fw α} (hc : c = .pcntGet ∨ c = .pcntClear ∨
      c = .millis ∨ c = .online ∨ c = .httpBegin ∨ c = .get ∨ c = .random ∨
      c = .confirmHealthyBoot ∨ c = .otaPoll)
    (hC : C w) (h : ∀ r, wp (sem E) (k r) Q C w) : wp (sem E) (.call c k) Q C w := by
  rcases hc with rfl | rfl | rfl | rfl | rfl | rfl | rfl | rfl | rfl <;>
  · refine wp_call hC ?_ ?_
    · rintro _ rfl
      exact hC
    · rintro r _ rfl
      exact h r

theorem wp_appendOpenSize {p : Path} {k : Option ℕ → Fw α} (hC : C w)
    (hcut : C (w.set p (some (w.old p))))
    (hok : wp (sem E) (k (some (w.old p).length)) Q C (w.set p (some (w.old p))))
    (hfail : E.fails (.appendOpenSize p) w.peer → wp (sem E) (k none) Q C w) :
    wp (sem E) (.call (.appendOpenSize p) k) Q C w := by
  refine wp_call hC ?_ ?_
  · rintro _ rfl
    exact hcut
  · rintro r _ (⟨-, rfl, rfl⟩ | ⟨hf, rfl, rfl⟩)
    · exact hok
    · exact hfail hf

theorem wp_truncateTo {p : Path} {n : ℕ} {b : Data} {k : Bool → Fw α} (hb : w.file p = some b)
    (hC : C w)
    (hcut : ∀ junk : Data, junk.length ≤ b.length - n → E.tears (b.drop n) junk →
      C (w.set p (some (b.take n ++ junk))))
    (hok : wp (sem E) (k true) Q C (w.set p (some (truncated b n))))
    (hfail : E.fails (.truncateTo p n) w.peer → wp (sem E) (k false) Q C w) :
    wp (sem E) (.call (.truncateTo p n) k) Q C w := by
  have hold : w.old p = b := by rw [World.old, hb, Option.getD_some]
  refine wp_call hC ?_ ?_
  · rintro _ ⟨junk, hlen, htears, rfl⟩
    rw [hold] at hlen htears ⊢
    exact hcut junk hlen htears
  · rintro r _ (⟨-, b', hb', rfl, rfl⟩ | ⟨hf, rfl, rfl⟩)
    · rw [hb] at hb'
      rw [← Option.some.inj hb']
      exact hok
    · rcases hf with hf | hf
      · exact hfail hf
      · rw [hb] at hf
        cases hf

theorem wp_appendWrite {p : Path} {data : Data} {k : Option ℕ → Fw α} (hC : C w)
    (hcut : ∀ junk : Data, junk.length ≤ data.length → E.tears data junk →
      C (w.set p (some (w.old p ++ junk))))
    (hok : wp (sem E) (k (some data.length)) Q C (w.set p (some (w.old p ++ data))))
    (hnone : E.fails (.appendWrite p data) w.peer → wp (sem E) (k none) Q C w)
    (hshort : E.fails (.appendWrite p data) w.peer → ∀ j < data.length,
      wp (sem E) (k (some j)) Q C (w.set p (some (w.old p ++ data.take j)))) :
    wp (sem E) (.call (.appendWrite p data) k) Q C w := by
  refine wp_call hC ?_ ?_
  · rintro _ ⟨junk, hlen, htears, rfl⟩
    exact hcut junk hlen htears
  · rintro r _ (⟨-, rfl, rfl⟩ | ⟨hf, ⟨rfl, rfl⟩ | ⟨j, hj, rfl, rfl⟩⟩)
    · exact hok
    · exact hnone hf
    · exact hshort hf j hj

theorem wp_writeWhole {p : Path} {data : Data} {k : Bool → Fw α} (hC : C w)
    (hcut : ∀ c, Unreadable p c → C (w.set p c))
    (hok : E.succeeds (.writeWhole p data) w.peer → wp (sem E) (k true) Q C (w.write p data))
    (hfail : E.fails (.writeWhole p data) w.peer → ∀ c, Unreadable p c →
      wp (sem E) (k false) Q C (w.set p c)) :
    wp (sem E) (.call (.writeWhole p data) k) Q C w := by
  refine wp_call hC ?_ ?_
  · rintro _ ⟨c, hc, rfl⟩
    exact hcut c hc
  · rintro r _ (⟨hs, rfl, rfl⟩ | ⟨hf, rfl, c, hc, rfl⟩)
    · exact hok hs
    · exact hfail hf c hc

theorem wp_remove {p : Path} {k : Unit → Fw α} (hC : C w)
    (h : wp (sem E) (k ()) Q C (w.set p none)) : wp (sem E) (.call (.remove p) k) Q C w := by
  refine wp_call hC ?_ ?_
  · rintro _ rfl
    exact wp_here h
  · rintro ⟨⟩ _ rfl
    exact h

theorem wp_openDir {k : List (List Char) → Fw α} (hC : C w)
    (h : ∀ names, List.Perm names w.flash.queueDir → wp (sem E) (k names) Q C w) :
    wp (sem E) (.call .openDir k) Q C w := by
  refine wp_call hC ?_ ?_
  · rintro _ rfl
    exact hC
  · rintro names _ ⟨hn, rfl⟩
    exact h names hn

end Rules

end Device
end CovioFirmware
