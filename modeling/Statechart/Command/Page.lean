/-
# Command pages

Actions have side effects outside of the machine. They are not performed but written
down as commands, a kind and some data each, on a page of fixed size that the host
reads after the tick. A page that has no room for a command refuses it.

On a page the commands follow each other, each behind a header of four bytes. Behind
them lies what earlier commands have left there: clearing a page forgets its commands
but wipes nothing. `Page.toBytes` gives the page as the host sees it: how many bytes
are used, how many commands there are, the page's number, eight bytes without a
meaning, and the contents.

The main statement is that the commands can be read back from the used bytes.
-/

import Statechart.Bytes.LittleEndian

namespace Statechart.Command

/-- A side effect asked for by an action. -/
structure Request where
  kind : UInt16
  data : Bytes
  deriving DecidableEq, Repr

namespace Request

/-- Bytes that a command occupies on a page. -/
def size (request : Request) : Nat :=
  4 + request.data.length

/-- A command as it lies on a page: kind, length of the data, data. -/
def toBytes (request : Request) : Bytes :=
  Bytes.ofWord16 request.kind ++ Bytes.ofWord16 (UInt16.ofNat request.data.length) ++
    request.data

@[simp]
theorem length_toBytes (request : Request) : request.toBytes.length = request.size := by
  simp [toBytes, size]
  omega

/-! The header and the data of a command that lies in front of other bytes. -/

theorem kind_toBytes (request : Request) (rest : Bytes) :
    (request.toBytes ++ rest).word16At 0 = request.kind := by
  simp [toBytes, Bytes.word16At, Bytes.byteAt, Bytes.ofWord16]

theorem length_data_toBytes (request : Request) (rest : Bytes)
    (short : request.data.length < 65536) :
    ((request.toBytes ++ rest).word16At 2).toNat = request.data.length := by
  have word : (request.toBytes ++ rest).word16At 2 = UInt16.ofNat request.data.length := by
    simp [toBytes, Bytes.word16At, Bytes.byteAt, Bytes.ofWord16, -UInt16.toNat_ofNat']
  rw [word, UInt16.toNat_ofNat']
  exact Nat.mod_eq_of_lt short

theorem data_toBytes (request : Request) (rest : Bytes) :
    ((request.toBytes ++ rest).drop 4).take request.data.length = request.data := by
  simp [toBytes, Bytes.ofWord16]

theorem drop_toBytes (request : Request) (rest : Bytes) :
    (request.toBytes ++ rest).drop (4 + request.data.length) = rest := by
  rw [← size, ← length_toBytes, List.drop_left]

end Request

/-- Bytes of a page behind its header. -/
def capacity : Nat := 4080

/-- A page of commands. -/
structure Page where
  /-- The number that the page was handed out under. -/
  sequence : UInt32
  /-- The commands in the order in which they were written. -/
  requests : Array Request
  /-- How many bytes the commands occupy. -/
  used : Nat
  /-- What lies behind the commands. -/
  leftover : Bytes
  used_eq : used = (requests.toList.flatMap Request.toBytes).length
  fits : used + leftover.length = capacity

namespace Page

/-- A new page. -/
def blank : Page where
  sequence := 0
  requests := #[]
  used := 0
  leftover := List.replicate capacity 0
  used_eq := rfl
  fits := by rw [List.length_replicate, Nat.zero_add]

instance : Inhabited Page := ⟨blank⟩

/-- How many bytes are left. -/
def remaining (page : Page) : Nat :=
  capacity - page.used

/-- How many commands there are. -/
def count (page : Page) : Nat :=
  page.requests.size

/-- Whether there is no command. -/
def isEmpty (page : Page) : Bool :=
  page.count == 0

/-- The commands as they lie on the page. -/
def contents (page : Page) : Bytes :=
  page.requests.toList.flatMap Request.toBytes

theorem length_contents (page : Page) : page.contents.length = page.used := by
  rw [page.used_eq, contents]

theorem remaining_eq (page : Page) : page.remaining = page.leftover.length := by
  have fits := page.fits
  unfold remaining
  omega

/-- The page as the host sees it. -/
def toBytes (page : Page) : Bytes :=
  Bytes.ofWord16 (UInt16.ofNat page.used) ++ Bytes.ofWord16 (UInt16.ofNat page.count) ++
    Bytes.ofWord32 page.sequence ++ List.replicate 8 0 ++ page.contents ++ page.leftover

/-- The same page under another number. -/
def withSequence (page : Page) (sequence : UInt32) : Page :=
  { page with sequence }

/-- Forget every command. What they have written stays on the page. -/
def clear (page : Page) : Page where
  sequence := page.sequence
  requests := #[]
  used := 0
  leftover := page.contents ++ page.leftover
  used_eq := rfl
  fits := by
    rw [List.length_append, page.length_contents, Nat.zero_add, page.fits]

/-- Write a command behind the others, unless there is no room for it. -/
def write? (page : Page) (request : Request) : Option Page :=
  if room : request.size ≤ page.remaining then
    some {
      sequence := page.sequence
      requests := page.requests.push request
      used := page.used + request.size
      leftover := page.leftover.drop request.size
      used_eq := by simp [page.used_eq]
      fits := by
        rw [page.remaining_eq] at room
        rw [List.length_drop]
        have fits := page.fits
        omega }
  else none

/-- Read commands from the used bytes of a page, at most `count` of them. -/
def readRequests : Nat → Bytes → List Request
  | 0, _ => []
  | count + 1, bytes =>
      if bytes.length < 4 then []
      else
        let length := (bytes.word16At 2).toNat
        { kind := bytes.word16At 0, data := (bytes.drop 4).take length } ::
          readRequests count (bytes.drop (4 + length))

theorem readRequests_toBytes (request : Request) (rest : Bytes) (count : Nat)
    (short : request.data.length < 65536) :
    readRequests (count + 1) (request.toBytes ++ rest) =
      request :: readRequests count rest := by
  have long : ¬ (request.toBytes ++ rest).length < 4 := by
    rw [List.length_append, Request.length_toBytes, Request.size]
    omega
  rw [readRequests, if_neg long]
  simp only [request.kind_toBytes, request.length_data_toBytes rest short,
    request.data_toBytes, request.drop_toBytes]

/-- Read commands back from the bytes they were written to. -/
theorem readRequests_flatMap (requests : List Request)
    (short : ∀ request ∈ requests, request.data.length < 65536) :
    readRequests requests.length (requests.flatMap Request.toBytes) = requests := by
  induction requests with
  | nil => rfl
  | cons request rest ih =>
    rw [List.flatMap_cons, List.length_cons,
      readRequests_toBytes request _ _ (short request List.mem_cons_self),
      ih fun other member => short other (List.mem_cons_of_mem request member)]

/-- No command on a page is longer than the page. -/
theorem size_le_capacity (page : Page) {request : Request}
    (member : request ∈ page.requests.toList) : request.size ≤ capacity := by
  have le : request.size ≤ (page.requests.toList.flatMap Request.toBytes).length := by
    obtain ⟨before, behind, split⟩ := List.append_of_mem member
    rw [split, List.flatMap_append, List.flatMap_cons, List.length_append,
      List.length_append, Request.length_toBytes]
    omega
  have fits := page.fits
  rw [page.used_eq] at fits
  omega

/-- The commands of a page can be read back from its used bytes. -/
theorem readRequests_contents (page : Page) :
    readRequests page.count page.contents = page.requests.toList := by
  refine readRequests_flatMap page.requests.toList fun request member => ?_
  have le := page.size_le_capacity member
  unfold Request.size capacity at le
  omega

end Page

/-- A page that is being written to, and how many commands it has refused
meanwhile. -/
structure Writer where
  page : Page
  rejected : Nat

namespace Writer

/-- Start to write on a page. -/
def ofPage (page : Page) : Writer where
  page := page
  rejected := 0

/-- Write a command. The answer says whether there was room for it. -/
def write (writer : Writer) (request : Request) : Bool × Writer :=
  match writer.page.write? request with
  | some page => (true, { writer with page })
  | none => (false, { writer with rejected := writer.rejected + 1 })

end Writer

end Statechart.Command
