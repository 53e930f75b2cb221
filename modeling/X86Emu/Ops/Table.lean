import X86Emu.Ops.TwoByte
import X86Emu.Ops.String

/-!
# The opcode tables

`x86emu_optab2` and `x86emu_optab`, in the order of the source, and the handler of the two byte
opcodes.
-/

namespace X86Emu

abbrev Handler : Type := U8 → Emu Unit

section

open Op2

/-- `x86emu_optab2` -/
def x86emuOptab2 : List Handler := [
  opc00, opc01, illegalOp, illegalOp, illegalOp, illegalOp, clts, illegalOp, invd, wbinvd,
  illegalOp, illegalOp, illegalOp, illegalOp, illegalOp, illegalOp, sseMovOps, sseMovOps,
  sseMovPackedOps, sseMovPackedOps, ssePackOps, ssePackOps, sseMovPackedOps, sseMovPackedOps,
  prefetch, hintNop, illegalOp, illegalOp, hintNop, hintNop, hintNop, nop, movWordRmCrx,
  movWordRmDrx, movWordCrxRm, movWordDrxRm, illegalOp, illegalOp, illegalOp, illegalOp,
  sseMovOps, sseMovOps, illegalOp, sseMovOps, sseMovOps, illegalOp, illegalOp, illegalOp, wrmsr,
  rdtsc, rdmsr, rdpmc, sysenter, sysexit, illegalOp, illegalOp, illegalOp, illegalOp, illegalOp,
  illegalOp, illegalOp, illegalOp, illegalOp, illegalOp, conditionalMove, conditionalMove,
  conditionalMove, conditionalMove, conditionalMove, conditionalMove, conditionalMove,
  conditionalMove, conditionalMove, conditionalMove, conditionalMove, conditionalMove,
  conditionalMove, conditionalMove, conditionalMove, conditionalMove, illegalOp, illegalOp,
  illegalOp, illegalOp, sseLogicalOps, sseLogicalOps, sseLogicalOps, sseLogicalOps, illegalOp,
  illegalOp, illegalOp, illegalOp, illegalOp, illegalOp, illegalOp, illegalOp, illegalOp,
  illegalOp, illegalOp, illegalOp, illegalOp, illegalOp, illegalOp, illegalOp, illegalOp,
  illegalOp, illegalOp, illegalOp, illegalOp, illegalOp, illegalOp, illegalOp, illegalOp,
  illegalOp, illegalOp, illegalOp, illegalOp, illegalOp, illegalOp, illegalOp, illegalOp,
  illegalOp, illegalOp, illegalOp, illegalOp, illegalOp, illegalOp, illegalOp, longJump,
  longJump, longJump, longJump, longJump, longJump, longJump, longJump, longJump, longJump,
  longJump, longJump, longJump, longJump, longJump, longJump, setByte, setByte, setByte,
  setByte, setByte, setByte, setByte, setByte, setByte, setByte, setByte, setByte, setByte,
  setByte, setByte, setByte, pushFs, popFs, cpuid, btR, shldImm, shldCl, illegalOp, illegalOp,
  pushGs, popGs, illegalOp, btsR, shrdImm, shrdCl, illegalOp, imulRRm, illegalOp, illegalOp,
  lssRImm, btrR, lfsRImm, lgsRImm, movzxByteRRm, movzxWordRRm, illegalOp, illegalOp, btXI, btcR,
  bsf, bsr, movsxByteRRm, movsxWordRRm, illegalOp, illegalOp, illegalOp, illegalOp, illegalOp,
  illegalOp, illegalOp, illegalOp, bswap, bswap, bswap, bswap, bswap, bswap, bswap, bswap,
  illegalOp, illegalOp, illegalOp, illegalOp, illegalOp, illegalOp, illegalOp, illegalOp,
  illegalOp, illegalOp, illegalOp, illegalOp, illegalOp, illegalOp, illegalOp, illegalOp,
  illegalOp, illegalOp, illegalOp, illegalOp, illegalOp, illegalOp, illegalOp, illegalOp,
  illegalOp, illegalOp, illegalOp, illegalOp, illegalOp, illegalOp, illegalOp, illegalOp,
  illegalOp, illegalOp, illegalOp, illegalOp, illegalOp, illegalOp, illegalOp, illegalOp,
  illegalOp, illegalOp, illegalOp, illegalOp, illegalOp, illegalOp, illegalOp, illegalOp]

end

/-- The entry of a table of 256. -/
def handlerAt (table : List Handler) (op : U8) : Handler := table.getD op.toNat Op.illegalOp

def Op.twoByte (_ : U8) : Emu Unit := do
  let op2 ← fetchByte
  handlerAt x86emuOptab2 op2 op2

section

open Op

/-- `x86emu_optab` -/
def x86emuOptab : List Handler := [
  opAByteRmR, opAWordRmR, opAByteRRm, opAWordRRm, opAByteAlImm, opAWordAxImm, pushEs, popEs,
  opAByteRmR, opAWordRmR, opAByteRRm, opAWordRRm, opAByteAlImm, opAWordAxImm, pushCs, twoByte,
  opAByteRmR, opAWordRmR, opAByteRRm, opAWordRRm, opAByteAlImm, opAWordAxImm, pushSs, popSs,
  opAByteRmR, opAWordRmR, opAByteRRm, opAWordRRm, opAByteAlImm, opAWordAxImm, pushDs, popDs,
  opAByteRmR, opAWordRmR, opAByteRRm, opAWordRRm, opAByteAlImm, opAWordAxImm, illegalOp, daa,
  opAByteRmR, opAWordRmR, opAByteRRm, opAWordRRm, opAByteAlImm, opAWordAxImm, illegalOp, das,
  opAByteRmR, opAWordRmR, opAByteRRm, opAWordRRm, opAByteAlImm, opAWordAxImm, illegalOp, aaa,
  opAByteRmR, opAWordRmR, opAByteRRm, opAWordRRm, opAByteAlImm, opAWordAxImm, illegalOp, aas,
  incAx, incCx, incDx, incBx, incSp, incBp, incSi, incDi, decAx, decCx, decDx, decBx, decSp,
  decBp, decSi, decDi, pushAx, pushCx, pushDx, pushBx, pushSp, pushBp, pushSi, pushDi, popAx,
  popCx, popDx, popBx, popSp, popBp, popSi, popDi, pushAll, popAll, illegalOp, illegalOp,
  illegalOp, illegalOp, illegalOp, illegalOp, pushWordImm, imulWordImm, pushByteImm,
  imulByteImm, insByte, insWord, outsByte, outsWord, jumpShortCc, jumpShortCc, jumpShortCc,
  jumpShortCc, jumpShortCc, jumpShortCc, jumpShortCc, jumpShortCc, jumpShortCc, jumpShortCc,
  jumpShortCc, jumpShortCc, jumpShortCc, jumpShortCc, jumpShortCc, jumpShortCc, opc80ByteRmImm,
  opc81WordRmImm, opc80ByteRmImm, opc83WordRmImm, testByteRmR, testWordRmR, xchgByteRmR,
  xchgWordRmR, movByteRmR, movWordRmR, movByteRRm, movWordRRm, movWordRmSr, leaWordRM,
  movWordSrRm, popRm, nop, xchgWordAxCx, xchgWordAxDx, xchgWordAxBx, xchgWordAxSp, xchgWordAxBp,
  xchgWordAxSi, xchgWordAxDi, cbw, cwd, callFarImm, wait, pushfWord, popfWord, sahf, lahf,
  movAlMImm, movAxMImm, movMAlImm, movMAxImm, movsByte, movsWord, cmpsByte, cmpsWord, testAlImm,
  testAxImm, stosByte, stosWord, lodsByte, lodsWord, scasByte, scasWord, movByteAlImm,
  movByteClImm, movByteDlImm, movByteBlImm, movByteAhImm, movByteChImm, movByteDhImm,
  movByteBhImm, movWordAxImm, movWordCxImm, movWordDxImm, movWordBxImm, movWordSpImm,
  movWordBpImm, movWordSiImm, movWordDiImm, opcC0ByteRmMem, opcC1WordRmMem, retNearImm, retNear,
  lesRImm, ldsRImm, movByteRmImm, movWordRmImm, enter, leave, retFarImm, retFar, int3, intImm,
  into, iret, opcD0ByteRm1, opcD1WordRm1, opcD2ByteRmCl, opcD3WordRmCl, aam, aad, setalc, xlat,
  illegalOp, illegalOp, illegalOp, illegalOp, illegalOp, illegalOp, illegalOp, illegalOp,
  loopne, loope, loop, jcxz, inByteAlImm, inWordAxImm, outByteImmAl, outWordImmAx, callNearImm,
  jumpNearImm, jumpFarImm, jumpByteImm, inByteAlDx, inWordAxDx, outByteDxAl, outWordDxAx,
  illegalOp, illegalOp, illegalOp, illegalOp, hlt, cmc, opcF6ByteRm, opcF7WordRm, clc, stc, cli,
  sti, cld, std, opcFeByteRm, opcFfWordRm]

end

theorem length_x86emuOptab : x86emuOptab.length = 256 := by decide +kernel

theorem length_x86emuOptab2 : x86emuOptab2.length = 256 := by decide +kernel

/-- The handler of an opcode byte. -/
def oneByte (op : U8) : Emu Unit := handlerAt x86emuOptab op op

theorem oneByte_eq (op : U8) {f : Handler} (hf : x86emuOptab[op.toNat]? = some f) :
    oneByte op = f op := by
  unfold oneByte handlerAt
  rw [List.getD_eq_getElem?_getD, hf]
  rfl

end X86Emu
