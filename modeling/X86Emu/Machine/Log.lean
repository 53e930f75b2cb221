import X86Emu.Machine.Text

/-!
# The log buffer

`LOG_FREE`, `LOG_STR`, `x86emu_clear_log`, `x86emu_log` and `x86emu_set_log`. The writers of
`decode.c` share one shape: look at the free space, clear the log when it is below a threshold
of the writer's own, give up when it is still below, else append the text and a terminating zero;
`logLine` is that shape.
-/

namespace X86Emu

namespace LogBuf

/-- `LOG_FREE`, an unsigned 32 bit number -/
def free (b : LogBuf) : U32 := BitVec.ofInt 32 (b.size.toNat - b.ptr)

/-- The offsets from `ptr` up to `ptr + n` are written. -/
def touch (b : LogBuf) (n : Nat) : LogBuf :=
  if n = 0 then b else { b with lo := min b.lo b.ptr, hi := max b.hi (b.ptr + n) }

/-- `memcpy` to `log.ptr` and advance -/
def put (b : LogBuf) (t : List Char) : LogBuf :=
  let b := b.touch t.length
  { b with text := b.text ++ t, ptr := b.ptr + t.length }

/-- `**p = 0` -/
def nul (b : LogBuf) : LogBuf := b.touch 1

def rewind (b : LogBuf) : LogBuf := { b with ptr := 0, text := [] }

/-- What `vsnprintf` returns and writes for a buffer of `max` bytes at `ptr`. It returns `-1` for a
text that cannot be formatted, which is no text here, or that is too long for its `int` result. -/
def vsnprintf (b : LogBuf) (max : Nat) (text : Option (List Char)) : Int × LogBuf :=
  match text with
  | none => (-1, b)
  | some t =>
    (if t.length < 2 ^ 31 then t.length else -1, b.touch (min (t.length + 1) max))

/-- `emu->log.ptr += size`, with the text up to the new position -/
def advance (b : LogBuf) (size : Int) (text : Option (List Char)) : LogBuf :=
  { b with
    ptr := b.ptr + size
    text := if size < 0 then b.text.dropLast else b.text ++ text.getD [] }

end LogBuf

def St.setBuf (s : St) (b : LogBuf) : St := { s with log := { s.log with buf := some b } }

/-- The text of `log.buf` handed to the host's flush function. -/
def runFlush (h : Host) (s : St) : St :=
  match h.flush, s.log.buf with
  | some f, some b => if b.ptr = 0 then s else f s b.text
  | _, _ => s

def x86emuClearLog (h : Host) (flush : Bool) (s : St) : U32 × St :=
  let s := if flush then runFlush h s else s
  match s.log.buf with
  | none => (0, s)
  | some b => (b.rewind.nul.free, s.setBuf b.rewind.nul)

/-- The common shape of the log writers: `thr` is the free space the writer asks for. -/
def logLine (thr : U32) (guard : Log → Bool) (text : St → List Char) (h : Host) (s : St) : St :=
  match s.log.buf with
  | none => s
  | some b =>
    if !guard s.log then s
    else
      let (lf, s) := if b.free < thr then x86emuClearLog h true s else (b.free, s)
      match s.log.buf with
      | none => s
      | some b => if lf < thr then s else s.setBuf (b.put (text s)).nul

/-- The last `if` of `x86emu_log`. -/
def logDone (s : St) (b : LogBuf) (size logFree : Int) (text : Option (List Char)) : St :=
  if size < logFree then s.setBuf (b.advance size text) else s.setBuf b.nul

/-- The second argument of `vsnprintf`: an `int` converted to `size_t`. -/
def sizeT (logFree : Int) : Nat := (BitVec.ofInt 64 logFree).toNat

/-- `x86emu_log`; `text` is what the format and its arguments give. -/
def x86emuLog (h : Host) (text : Option (List Char)) (s : St) : St :=
  match s.log.buf with
  | none => s
  | some b =>
    let logFree := b.free.toInt
    let (size, b) := b.vsnprintf (sizeT logFree) text
    if size ≥ logFree then
      let (logFree, s) := x86emuClearLog h true (s.setBuf b)
      match s.log.buf with
      | none => s
      | some b =>
        let (size, b) := b.vsnprintf (sizeT logFree.toInt) text
        logDone s b size logFree.toInt text
    else logDone s b size logFree text

/-- `x86emu_set_log`; the flush function is the host's. -/
def x86emuSetLog (size : U32) (s : St) : St :=
  { s with log := { s.log with buf := if size = 0 then none else some { size := size } } }

end X86Emu
