import MiniLibc.Stdio.File
/-!
# Reading, writing and pushing back

`src/stdio/stdio.c`, `block.c`, `orientation.c` and the byte wrappers around
them. A function returns what it delivers or how much it accepted, and the world
after it. The loops recurse on a bound on what is left to transfer; every pass
of a loop on a stream with storage moves at least one byte or, when reading,
refills an empty cache (`readLoop`'s two passes a byte).
-/
open MiniLibc.Memory

namespace MiniLibc.Stdio

variable {κ : Type} [Kernel κ]

def eio : Nat := 5
def einval : Nat := 22
def eilseq : Nat := 84

/-- `mark_error` and its variants. -/
def markError (w : World κ) (error : Nat) : World κ := { w with file.state.error := true, errno := error }

/-- `__mini_stdio_pushback_unlocked`: whether the bytes were taken. -/
def stdioPushback (w : World κ) (bytes : List UInt8) : Bool × World κ :=
  if !w.file.mode.readable ∨ bytes.length = 0 ∨ bytes.length > 4 ∨ w.file.state.writeNeedsSync ∨
      w.file.pushbackOffset < w.file.pushbackLength then
    (false, markError w einval)
  else
    (true, { w with file := { w.file with
      pushbackBytes := fill w.file.pushbackBytes 0 bytes
      pushbackOffset := 0
      pushbackLength := bytes.length
      state := { w.file.state with eof := false, readNeedsPosition := true } } })

/-- `ensure_storage`. -/
def ensureStorage (f : File) : File :=
  { f with
    bufferSize := if f.bufferSize = 0 then fileBufferSize else f.bufferSize
    writeBuffer := if f.writeBuffer = .null then .inlineWrite else f.writeBuffer
    readBuffer := if f.readBuffer = .null then .inlineRead else f.readBuffer }

/-! ## `stdio_read_unlocked` -/

/-- The loop of an unbuffered read. -/
def readUnbuffered : (fuel : Nat) → World κ → (wanted : Nat) → List UInt8 × World κ
  | 0, w, _ => ([], w)
  | fuel + 1, w, wanted =>
    if wanted = 0 then ([], w)
    else
      let (result, kernel) := Kernel.read w.kernel wanted
      let w := { w with kernel }
      match result with
      | .error e => ([], markError { w with file.state.readNeedsPosition := true } e)
      | .ok bytes =>
        if bytes.length = 0 then
          ([], { w with file.state.eof := true, file.state.readNeedsPosition := false })
        else if bytes.length > wanted then
          ([], markError { w with file.state.readNeedsPosition := true } eio)
        else
          let (rest, w) :=
            readUnbuffered fuel { w with file.state.readNeedsPosition := true } (wanted - bytes.length)
          (bytes ++ rest, w)

/-- Deliver `chunk` bytes of the pushback. -/
def takePushback (f : File) (chunk : Nat) : File :=
  let offset := f.pushbackOffset + chunk
  { f with
    pushbackOffset := if offset = f.pushbackLength then 0 else offset
    pushbackLength := if offset = f.pushbackLength then 0 else f.pushbackLength
    state.readNeedsPosition := true }

/-- Deliver `chunk` bytes of the cache. -/
def takeCached (f : File) (chunk : Nat) : File :=
  { f with readOffset := f.readOffset + chunk, state.readNeedsPosition := true }

/-- The raw read of a buffered stream: whether there is new input. -/
def refill (w : World κ) : Bool × World κ :=
  let (result, kernel) := Kernel.read w.kernel w.file.bufferSize
  let w := { w with kernel }
  match result with
  | .error e => (false, markError { w with file.state.readNeedsPosition := true } e)
  | .ok bytes =>
    if bytes.length = 0 then
      (false, { w with file := { w.file with
        readOffset := 0, readLength := 0, state.eof := true, state.readNeedsPosition := false } })
    else
      -- The kernel stores no more than the buffer holds.
      let buffer := fill (w.file.storage w.file.readBuffer) 0 (bytes.take w.file.bufferSize)
      let file := w.file.setStorage buffer w.file.readBuffer
      if bytes.length > w.file.bufferSize then
        (false, markError { w with file := { file with state.readNeedsPosition := true } } eio)
      else (true, { w with file := { file with readOffset := 0, readLength := bytes.length } })

/-- The loop of a buffered read. -/
def readLoop : (fuel : Nat) → World κ → (wanted : Nat) → List UInt8 × World κ
  | 0, w, _ => ([], w)
  | fuel + 1, w, wanted =>
    if wanted = 0 then ([], w)
    else if w.file.pushbackOffset < w.file.pushbackLength then
      let chunk := min (w.file.pushbackLength - w.file.pushbackOffset) wanted
      let bytes := bytesAt w.file.pushbackBytes w.file.pushbackOffset chunk
      let (rest, w) := readLoop fuel { w with file := takePushback w.file chunk } (wanted - chunk)
      (bytes ++ rest, w)
    else if w.file.readOffset < w.file.readLength then
      let chunk := min (w.file.readLength - w.file.readOffset) wanted
      let bytes := bytesAt (w.file.storage w.file.readBuffer) w.file.readOffset chunk
      let (rest, w) := readLoop fuel { w with file := takeCached w.file chunk } (wanted - chunk)
      (bytes ++ rest, w)
    else if w.file.state.eof then ([], w)
    else
      match refill w with
      | (true, w) => readLoop fuel w wanted
      | (false, w) => ([], w)

/-- `stdio_read_unlocked`: the bytes delivered. -/
def stdioRead (w : World κ) (length : Nat) : List UInt8 × World κ :=
  if length = 0 then ([], w)
  else if !w.file.mode.readable then ([], markError w einval)
  else if w.file.state.writeNeedsSync then ([], markError w einval)
  else if w.file.mode.unbuffered then readUnbuffered length w length
  else readLoop (2 * length) { w with file := ensureStorage w.file } length

/-! ## `stdio_write_unlocked` -/

/-- `write_raw`: how many bytes the kernel took. -/
def writeRaw : (fuel : Nat) → World κ → List UInt8 → Nat × World κ
  | 0, w, _ => (0, w)
  | fuel + 1, w, data =>
    if data.length = 0 then (0, w)
    else
      let (result, kernel) := Kernel.write w.kernel data
      let w := { w with kernel }
      match result with
      | .error e => (0, markError w e)
      | .ok count =>
        if count = 0 then (0, markError w eio)
        else if count > data.length then (0, markError w eio)
        else
          let (rest, w) := writeRaw fuel w (data.drop count)
          (count + rest, w)

/-- Move `n` bytes from offset `completed` on to the front, upwards from `i`. -/
def shiftLoop (m : Mem) (completed i : Nat) : Nat → Mem
  | 0 => m
  | n + 1 => shiftLoop (poke m i (m (completed + i))) completed (i + 1) n

/-- A raw write failed: keep what is left at the front of the buffer. -/
def keepUnwritten (w : World κ) (completed remaining error : Nat) : World κ :=
  let buffer := shiftLoop (w.file.storage w.file.writeBuffer) completed 0 remaining
  markError { w with file := { w.file.setStorage buffer w.file.writeBuffer with writeLength := remaining } } error

/-- The loop of a flush: whether everything was written. -/
def flushLoop : (fuel : Nat) → World κ → (length completed : Nat) → Bool × World κ
  | 0, w, _, _ => (true, { w with file.writeLength := 0 })
  | fuel + 1, w, length, completed =>
    if completed < length then
      let remaining := length - completed
      let (result, kernel) := Kernel.write w.kernel (bytesAt (w.file.storage w.file.writeBuffer) completed remaining)
      let w := { w with kernel }
      match result with
      | .error e => (false, keepUnwritten w completed remaining e)
      | .ok count =>
        if count = 0 ∨ count > remaining then (false, keepUnwritten w completed remaining eio)
        else flushLoop fuel w length (completed + count)
    else (true, { w with file.writeLength := 0 })

/-- `stdio_flush_buffer_unlocked`. -/
def stdioFlushBuffer (w : World κ) : Bool × World κ :=
  if !w.file.mode.writable then (false, markError w einval)
  else if w.file.writeLength = 0 then (true, w)
  else flushLoop w.file.writeLength { w with file := ensureStorage w.file } w.file.writeLength 0

/-- How much of `data` goes into the buffer next, and whether a newline ends it. -/
def writeChunk (f : File) (data : List UInt8) : Nat × Bool :=
  let chunk := min data.length (f.bufferSize - f.writeLength)
  if f.mode.lineBuffered then
    match (data.take chunk).idxOf? 10 with
    | some i => (i + 1, true)
    | none => (chunk, false)
  else (chunk, false)

/-- Copy bytes behind the pending ones. -/
def appendPending (f : File) (bytes : List UInt8) : File :=
  { f.setStorage (fill (f.storage f.writeBuffer) f.writeLength bytes) f.writeBuffer with
    writeLength := f.writeLength + bytes.length }

/-- The loop of a buffered write. -/
def writeLoop : (fuel : Nat) → World κ → List UInt8 → Nat × World κ
  | 0, w, _ => (0, w)
  | fuel + 1, w, data =>
    if data.length = 0 then (0, w)
    else
      match if w.file.writeLength = w.file.bufferSize then stdioFlushBuffer w else (true, w) with
      | (false, w) => (0, w)
      | (true, w) =>
        let (chunk, flushLine) := writeChunk w.file data
        let w := { w with file := appendPending w.file (data.take chunk) }
        match if flushLine then stdioFlushBuffer w else (true, w) with
        | (false, w) => (chunk, w)
        | (true, w) =>
          let (rest, w) := writeLoop fuel w (data.drop chunk)
          (chunk + rest, w)

/-- `stdio_write_unlocked`: how many bytes were accepted. -/
def stdioWrite (w : World κ) (data : List UInt8) : Nat × World κ :=
  if data.length = 0 then (0, w)
  else if !w.file.mode.writable then (0, markError w einval)
  else if w.file.state.readNeedsPosition then (0, markError w einval)
  else
    let w := { w with file.state.writeNeedsSync := true }
    if w.file.mode.unbuffered then writeRaw data.length w data
    else writeLoop data.length { w with file := ensureStorage w.file } data

/-! ## Orientation -/

/-- `valid_stream`. -/
def validStream (f : File) : Bool := f.mode.readable || f.mode.writable

/-- `__mini_stdio_require_byte`. -/
def requireByte (w : World κ) : Bool × World κ :=
  if !validStream w.file then (false, markError w einval)
  else if !w.file.state.byteOriented ∧ !w.file.state.wideOriented then
    (true, { w with file.state.byteOriented := true })
  else if w.file.state.byteOriented ∧ !w.file.state.wideOriented then (true, w)
  else (false, markError w einval)

/-- `__mini_stdio_require_wide`, in a locale whose encoding is UTF-8 or not. -/
def requireWide (w : World κ) (localeUtf8 : Bool) : Bool × World κ :=
  if !validStream w.file then (false, markError w einval)
  else if !w.file.state.byteOriented ∧ !w.file.state.wideOriented then
    (true, { w with file.state.wideOriented := true, file.state.wideUtf8 := localeUtf8 })
  else if w.file.state.wideOriented ∧ !w.file.state.byteOriented then (true, w)
  else (false, markError w einval)

/-- The wrappers of `byte_sync.c` and `block_sync.c` around each byte operation. -/
def byteOp {α : Type} (fail : α) (core : World κ → α × World κ) (w : World κ) : α × World κ :=
  match requireByte w with
  | (true, w) => core w
  | (false, w) => (fail, w)

/-! ## Byte operations -/

/-- `(unsigned char)c`. -/
def unsignedChar (c : Int) : UInt8 := .ofNat (c % 256).toNat

/-- `__mini_fgetc_byte_core`. `none` is `EOF`. -/
def fgetcCore (w : World κ) : Option UInt8 × World κ :=
  match stdioRead w 1 with
  | ([byte], w) => (some byte, w)
  | (_, w) => (none, w)

def fgetc (w : World κ) : Option UInt8 × World κ := byteOp none fgetcCore w

/-- The loop of `fgets`: the bytes stored, and whether it may go on to succeed. -/
def fgetsLoop : Nat → World κ → List UInt8 × Bool × World κ
  | 0, w => ([], true, w)
  | room + 1, w =>
    match fgetcCore w with
    | (none, w) => ([], w.file.state.eof, w)
    | (some value, w) =>
      if value = 10 then ([value], true, w)
      else
        let (line, ok, w) := fgetsLoop room w
        (value :: line, ok, w)

/-- `fgets_unlocked`: the bytes stored before the terminator, and whether the
result is not null. -/
def fgetsCore (n : Int) (w : World κ) : (List UInt8 × Bool) × World κ :=
  if n ≤ 0 ∨ !w.file.mode.readable ∨ w.file.state.writeNeedsSync then (([], false), markError w einval)
  else if n = 1 then (([], true), w)
  else
    let (line, ok, w) := fgetsLoop (n - 1).toNat w
    if !ok then ((line, false), w)
    else if line.length = 0 ∧ w.file.state.eof then (([], false), w)
    else ((line, true), w)

def fgets (n : Int) (w : World κ) : (List UInt8 × Bool) × World κ := byteOp ([], false) (fgetsCore n) w

/-- `__mini_ungetc_byte_core`. `none` is `EOF`. -/
def ungetcCore (c : Int) (w : World κ) : Option UInt8 × World κ :=
  if c = -1 then (none, w)
  else
    let byte := unsignedChar c
    match stdioPushback w [byte] with
    | (true, w) => (some byte, w)
    | (false, w) => (none, w)

def ungetc (c : Int) (w : World κ) : Option UInt8 × World κ := byteOp none (ungetcCore c) w

/-- `__mini_fputc_byte_core`. `none` is `EOF`. -/
def fputcCore (c : Int) (w : World κ) : Option UInt8 × World κ :=
  let byte := unsignedChar c
  match stdioWrite w [byte] with
  | (1, w) => (some byte, w)
  | (_, w) => (none, w)

def fputc (c : Int) (w : World κ) : Option UInt8 × World κ := byteOp none (fputcCore c) w

/-- `__mini_fputs_byte_core`, of the bytes before the terminator. -/
def fputsCore (s : List UInt8) (w : World κ) : Bool × World κ :=
  if !w.file.mode.writable then (false, markError w einval)
  else
    let (accepted, w) := stdioWrite w s
    (accepted = s.length, w)

def fputs (s : List UInt8) (w : World κ) : Bool × World κ := byteOp false (fputsCore s) w

/-- `(size_t)-1`. -/
def sizeMax : Nat := 2 ^ 64 - 1

/-- `__mini_fread_byte_core`: the bytes delivered, and the item count returned. -/
def freadCore (size nmemb : Nat) (w : World κ) : (List UInt8 × Nat) × World κ :=
  if size = 0 ∨ nmemb = 0 then (([], 0), w)
  else if nmemb > sizeMax / size then (([], 0), markError w einval)
  else
    let (bytes, w) := stdioRead w (size * nmemb)
    ((bytes, bytes.length / size), w)

def fread (size nmemb : Nat) (w : World κ) : (List UInt8 × Nat) × World κ := byteOp ([], 0) (freadCore size nmemb) w

/-- `__mini_fwrite_byte_core`, of the `size * nmemb` bytes at its pointer: the
item count returned. -/
def fwriteCore (data : List UInt8) (size nmemb : Nat) (w : World κ) : Nat × World κ :=
  if size = 0 ∨ nmemb = 0 then (0, w)
  else if !w.file.mode.writable then (0, markError w einval)
  else if nmemb > sizeMax / size then (0, markError w einval)
  else
    let (accepted, w) := stdioWrite w (data.take (size * nmemb))
    (accepted / size, w)

def fwrite (data : List UInt8) (size nmemb : Nat) (w : World κ) : Nat × World κ :=
  byteOp 0 (fwriteCore data size nmemb) w

/-! ## Flushes and flags -/

/-- `fflush` of one stream. -/
def fflush (w : World κ) : Bool × World κ :=
  if !validStream w.file then (false, markError w einval)
  else if w.file.mode.writable then
    match stdioFlushBuffer w with
    | (true, w) => (true, { w with file.state.writeNeedsSync := false })
    | (false, w) => (false, w)
  else (true, w)

/-- What `__mini_stdio_flush_all` does to one stream of its list. -/
def flushAllStream (w : World κ) : Bool × World κ :=
  if w.file.mode.writable then stdioFlushBuffer w else (true, w)

def clearerr (w : World κ) : World κ := { w with file.state.eof := false, file.state.error := false }

end MiniLibc.Stdio
