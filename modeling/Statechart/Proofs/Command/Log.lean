/-
# Pages as logs

The host sees a page as bytes. Its commands are what lies in the used bytes, cut up by the lengths
that the commands carry themselves (`commands`). Behind the used bytes lies what was written
earlier, in the same form.

A `Log` says what a page is to hold: the commands that there was room for since it was cleared
last, and how many were refused by the writer. A page that is new or handed out by a pool, whatever
it was used for before, agrees with the log after any calls, down to its bytes
(`faithful_performAll`).
-/

import Statechart.Command.Pool
import Statechart.Fault
import Statechart.Proofs.Bytes.Parts
import Statechart.Proofs.Yields

namespace Statechart.Command

/-! ### Commands in bytes -/

/-- Cut bytes up into commands. A command must not end behind them. -/
def cutUp (bytes : Bytes) : Except Fault (List Request) :=
  let length := (bytes.word16At 2).toNat
  if bytes.length < 4 then .ok []
  else if bytes.length < 4 + length then .error .outOfBounds
  else do
    let others ← cutUp (bytes.drop (4 + length))
    return { kind := bytes.word16At 0, data := bytes.slice 4 length } :: others
termination_by bytes.length
decreasing_by
  rw [List.length_drop]
  omega

/-- The commands of a page, read from its bytes. -/
def commands (image : Bytes) : Except Fault (List Request) :=
  let used := (image.word16At 0).toNat
  if image.length < 16 + used then .error .outOfBounds
  else cutUp (image.slice 16 used)

theorem cutUp_toBytes (request : Request) (rest : Bytes)
    (short : request.data.length < 65536) :
    cutUp (request.toBytes ++ rest) = (request :: ·) <$> cutUp rest := by
  have length : (request.toBytes ++ rest).length = 4 + request.data.length + rest.length := by
    rw [List.length_append, Request.length_toBytes, Request.size]
  rw [cutUp, request.length_data_toBytes rest short, length, if_neg (by omega),
    if_neg (by omega), request.kind_toBytes, request.drop_toBytes, Bytes.slice,
    request.data_toBytes]
  rfl

theorem cutUp_flatMap (requests : List Request)
    (short : ∀ request ∈ requests, request.data.length < 65536) :
    cutUp (requests.flatMap Request.toBytes) = .ok requests := by
  induction requests with
  | nil => rw [cutUp]; rfl
  | cons request rest ih =>
    rw [List.flatMap_cons, cutUp_toBytes request _ (short request List.mem_cons_self),
      ih fun other member => short other (List.mem_cons_of_mem request member)]
    rfl

/-- Where bytes can be cut up to the end, reading a number of commands is reading the first ones. -/
theorem readRequests_of_cutUp {bytes : Bytes} {requests : List Request}
    (cut : cutUp bytes = .ok requests) (count : Nat) :
    Page.readRequests count bytes = requests.take count := by
  induction count generalizing bytes requests with
  | zero => rw [List.take_zero, Page.readRequests]
  | succ count ih =>
    rw [cutUp] at cut
    split at cut
    case isTrue short =>
      cases cut
      rw [Page.readRequests, if_pos short, List.take_nil]
    case isFalse long =>
      split at cut
      case isTrue => cases cut
      case isFalse =>
        obtain ⟨others, rest, cut⟩ := Yields.exists_of_bind cut
        cases cut
        rw [Page.readRequests, if_neg long, List.take_succ_cons, ← ih rest]
        rfl

namespace Page

variable (page : Page)

/-! ### A page in bytes -/

/-- What lies in front of the commands. -/
def header : Bytes :=
  Bytes.ofWord16 (UInt16.ofNat page.used) ++ Bytes.ofWord16 (UInt16.ofNat page.count) ++
    Bytes.ofWord32 page.sequence ++ List.replicate 8 0

theorem toBytes_eq : page.toBytes = page.header ++ page.contents ++ page.leftover := rfl

@[simp]
theorem length_header : page.header.length = 16 := rfl

theorem used_le : page.used ≤ 4080 := by
  have fits : page.used + page.leftover.length = 4080 := page.fits
  omega

@[simp]
theorem length_toBytes : page.toBytes.length = 4096 := by
  have fits : page.used + page.leftover.length = 4080 := page.fits
  rw [toBytes_eq, List.length_append, List.length_append, length_header, length_contents]
  omega

/-- Every command occupies the bytes of its kind and its length at least. -/
theorem count_le : 4 * page.count ≤ page.used := by
  rw [page.used_eq, count, ← Array.length_toList]
  induction page.requests.toList with
  | nil => exact Nat.zero_le _
  | cons request rest ih =>
    rw [List.length_cons, List.flatMap_cons, List.length_append, Request.length_toBytes,
      Request.size]
    omega

theorem toNat_used_toBytes : (page.toBytes.word16At 0).toNat = page.used := by
  have word : page.toBytes.word16At 0 = UInt16.ofNat page.used := Bytes.word16_digit _
  have le := page.used_le
  rw [word, UInt16.toNat_ofNat']
  exact Nat.mod_eq_of_lt (by omega)

theorem toNat_count_toBytes : (page.toBytes.word16At 2).toNat = page.count := by
  have word : page.toBytes.word16At 2 = UInt16.ofNat page.count := Bytes.word16_digit _
  have le := page.used_le
  have few := page.count_le
  rw [word, UInt16.toNat_ofNat']
  exact Nat.mod_eq_of_lt (by omega)

/-- What is read from the bytes of a page are its commands, whatever lies behind them. -/
theorem commands_toBytes : commands page.toBytes = .ok page.requests.toList := by
  have le := page.used_le
  have used : page.toBytes.slice 16 page.used = page.contents := by
    rw [← page.length_contents]
    exact Bytes.slice_middle page.length_header.symm page.contents page.leftover
  rw [commands, page.toNat_used_toBytes, length_toBytes, if_neg (by omega), used, contents]
  refine cutUp_flatMap _ fun request member => ?_
  have bound : 4 + request.data.length ≤ 4080 := page.size_le_capacity member
  omega

theorem requests_of_write? {request : Request} {after : Page}
    (taken : page.write? request = some after) :
    after.requests = page.requests.push request := by
  unfold write? at taken
  split at taken <;> cases taken
  rfl

/-- Writing a command changes the bytes of the command and the two words in front of the page,
and no other ones. -/
theorem toBytes_of_write? {request : Request} {after : Page}
    (taken : page.write? request = some after) :
    after.toBytes =
      (page.toBytes.overwrite (16 + page.used) request.toBytes).overwrite 0
        (Bytes.ofWord16 (UInt16.ofNat (page.used + request.size)) ++
          Bytes.ofWord16 (UInt16.ofNat (page.count + 1))) := by
  unfold write? at taken
  split at taken
  case isFalse => cases taken
  case isTrue room =>
    cases taken
    rw [page.remaining_eq] at room
    -- The bytes that the command is written over.
    let former := page.leftover.take request.size
    have split : page.toBytes =
        page.header ++ page.contents ++ former ++ page.leftover.drop request.size := by
      rw [toBytes_eq, List.append_assoc _ former, List.take_append_drop]
    have same : request.toBytes.length = former.length := by
      rw [List.length_take, Request.length_toBytes, Nat.min_eq_left room]
    have place : 16 + page.used = (page.header ++ page.contents).length := by
      rw [List.length_append, length_header, length_contents]
    rw [split, Bytes.overwrite_middle place same]
    simp [toBytes, header, contents, count, Bytes.overwrite, Bytes.ofWord16]

end Page

/-! ### Writing -/

/-- What can happen to a page. -/
inductive Call
  /-- The writer is given a command. -/
  | write (request : Request)
  /-- The page is given another number. -/
  | renumber (sequence : UInt32)
  /-- Another writer goes on behind the commands that are there. -/
  | reopen
  /-- The page is cleared and given to another writer. -/
  | clear

namespace Writer

/-- What is left of a page and its writer after a call. -/
def perform (writer : Writer) : Call → Writer
  | .write request => (writer.write request).2
  | .renumber sequence => { writer with page := writer.page.withSequence sequence }
  | .reopen => ofPage writer.page
  | .clear => ofPage writer.page.clear

/-- Calls one after the other. -/
def performAll (writer : Writer) (calls : List Call) : Writer :=
  calls.foldl perform writer

end Writer

/-- What a page is to hold. -/
structure Log where
  /-- The commands since the page was cleared last, in the order in which they came. -/
  accepted : List Request
  /-- How many commands the writer has been refused. -/
  refused : Nat

namespace Log

/-- Nothing was written. -/
def empty : Log where
  accepted := []
  refused := 0

/-- The sizes of the commands together. -/
def used (log : Log) : Nat :=
  log.accepted.foldr (fun request others => request.size + others) 0

/-- What is to become of the log. -/
def perform (log : Log) : Call → Log
  | .write request =>
      if 4 + request.data.length ≤ 4080 - log.used then
        { log with accepted := log.accepted ++ [request] }
      else { log with refused := log.refused + 1 }
  | .renumber _ => log
  | .reopen => { log with refused := 0 }
  | .clear => empty

/-- Calls one after the other. -/
def performAll (log : Log) (calls : List Call) : Log :=
  calls.foldl perform log

end Log

namespace Writer

variable {writer : Writer} {log : Log}

/-- A page has the commands of the log, and its writer counts the refused ones. -/
structure Holds (writer : Writer) (log : Log) : Prop where
  requests_eq : writer.page.requests.toList = log.accepted
  rejected_eq : writer.rejected = log.refused

namespace Holds

theorem ofPage {page : Page} (bare : page.requests = #[]) : (ofPage page).Holds Log.empty where
  requests_eq := by rw [Writer.ofPage, bare]; rfl
  rejected_eq := rfl

theorem used_eq (holds : writer.Holds log) : writer.page.used = log.used := by
  rw [writer.page.used_eq, holds.requests_eq, Log.used]
  induction log.accepted with
  | nil => rfl
  | cons request later ih =>
    rw [List.flatMap_cons, List.length_append, request.length_toBytes, ih, List.foldr_cons]

theorem count_eq (holds : writer.Holds log) : writer.page.count = log.accepted.length := by
  rw [Page.count, ← Array.length_toList, holds.requests_eq]

/-- A command is taken if its size is left. -/
theorem write_of_room (holds : writer.Holds log) {request : Request}
    (room : 4 + request.data.length ≤ 4080 - log.used) :
    ∃ page, writer.page.write? request = some page ∧
      writer.write request = (true, { writer with page }) := by
  have left : request.size ≤ writer.page.remaining := by
    rw [Page.remaining, holds.used_eq]
    exact room
  obtain ⟨page, taken⟩ : ∃ page, writer.page.write? request = some page := ⟨_, dif_pos left⟩
  exact ⟨page, taken, by rw [Writer.write, taken]⟩

/-- A command is refused otherwise, and the page stays as it is. -/
theorem write_of_not_room (holds : writer.Holds log) {request : Request}
    (full : ¬ 4 + request.data.length ≤ 4080 - log.used) :
    writer.write request = (false, { writer with rejected := writer.rejected + 1 }) := by
  have beyond : ¬ request.size ≤ writer.page.remaining := by
    rw [Page.remaining, holds.used_eq]
    exact full
  rw [Writer.write, Page.write?, dif_neg beyond]

/-- Each call keeps a page in agreement with the log. -/
theorem perform (holds : writer.Holds log) (call : Call) :
    (writer.perform call).Holds (log.perform call) := by
  cases call with
  | write request =>
    by_cases room : 4 + request.data.length ≤ 4080 - log.used
    · obtain ⟨page, taken, written⟩ := holds.write_of_room room
      rw [Log.perform, if_pos room, Writer.perform, written]
      refine ⟨?_, holds.rejected_eq⟩
      rw [writer.page.requests_of_write? taken, Array.toList_push, holds.requests_eq]
    · rw [Log.perform, if_neg room, Writer.perform, holds.write_of_not_room room]
      exact ⟨holds.requests_eq, congrArg (· + 1) holds.rejected_eq⟩
  | renumber sequence => exact ⟨holds.requests_eq, holds.rejected_eq⟩
  | reopen => exact ⟨holds.requests_eq, rfl⟩
  | clear => exact ofPage rfl

theorem performAll (holds : writer.Holds log) (calls : List Call) :
    (writer.performAll calls).Holds (log.performAll calls) := by
  induction calls generalizing writer log with
  | nil => exact holds
  | cons call later ih => exact ih (holds.perform call)

end Holds

end Writer

/-- Where a page comes from. -/
inductive Origin
  /-- It is new. -/
  | blank
  /-- A pool hands it out, from among pages with any commands and any bytes behind them. -/
  | rented (pool : Pool)

namespace Origin

/-- The page that is written on. -/
def page : Origin → Page
  | blank => .blank
  | rented pool => pool.rent.1

theorem requests_page (origin : Origin) : origin.page.requests = #[] := by
  cases origin with
  | blank => rfl
  | rented pool => exact pool.requests_rent

/-- After any calls, the commands in the bytes of a page are those that were accepted since it was
cleared last, and the words in front of them say how many there are and what they occupy. The next
command is accepted if its size is left of the 4080 bytes, and is written behind the others.
Otherwise it is counted, and every byte stays as it is. -/
theorem faithful_performAll (origin : Origin) (calls : List Call) :
    let writer := (Writer.ofPage origin.page).performAll calls
    let log := Log.empty.performAll calls
    let image := writer.page.toBytes
    (image.length = 4096 ∧ commands image = .ok log.accepted ∧
      (image.word16At 0).toNat = log.used ∧ (image.word16At 2).toNat = log.accepted.length) ∧
    (writer.page.requests.toList = log.accepted ∧ writer.page.used = log.used ∧
      writer.page.count = log.accepted.length ∧ writer.rejected = log.refused) ∧
    ∀ request,
      let (taken, after) := writer.write request
      if 4 + request.data.length ≤ 4080 - log.used then
        taken = true ∧ after.rejected = writer.rejected ∧
          after.page.toBytes =
            (image.overwrite (16 + log.used) request.toBytes).overwrite 0
              (Bytes.ofWord16 (UInt16.ofNat (log.used + request.size)) ++
                Bytes.ofWord16 (UInt16.ofNat (log.accepted.length + 1)))
      else
        taken = false ∧ after.rejected = writer.rejected + 1 ∧ after.page.toBytes = image := by
  intro writer log image
  have holds : writer.Holds log := (Writer.Holds.ofPage origin.requests_page).performAll calls
  refine ⟨⟨writer.page.length_toBytes, ?_, ?_, ?_⟩,
    ⟨holds.requests_eq, holds.used_eq, holds.count_eq, holds.rejected_eq⟩, fun request => ?_⟩
  · rw [writer.page.commands_toBytes, holds.requests_eq]
  · rw [writer.page.toNat_used_toBytes, holds.used_eq]
  · rw [writer.page.toNat_count_toBytes, holds.count_eq]
  · by_cases room : 4 + request.data.length ≤ 4080 - log.used
    · obtain ⟨page, taken, written⟩ := holds.write_of_room room
      have bytes := writer.page.toBytes_of_write? taken
      rw [holds.used_eq, holds.count_eq] at bytes
      simp only [written, if_pos room]
      exact ⟨trivial, trivial, bytes⟩
    · simp only [holds.write_of_not_room room, if_neg room]
      exact ⟨trivial, trivial, rfl⟩

end Origin

end Statechart.Command
