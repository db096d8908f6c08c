import SnesSound.Cpu.Instruction

/-!
# Opcodes

The instruction that each opcode stands for and the cycles it takes, row by row of the upper half of the opcode. Every
opcode is an instruction. A conditional branch that is taken costs two cycles more than the table says.

Main statement: every instruction takes between 2 and 12 cycles (`cycles_mem`).
-/

namespace SnesSound.Opcode

/-! ## Instructions -/

/-- Opcodes `00` to `0F`. -/
def row0 : Vector Instruction 16 := #v[
  .nop, .callVector 0, .writeBit 0 true, .branchBit 0 true, .binary .or (.memory .direct),
  .binary .or (.memory .absolute), .binary .or (.memory .indirectX), .binary .or (.memory .indexedIndirect),
  .binary .or .immediate, .binaryMemory .or .directDirect, .carryBit .or, .unary .shiftLeft (.memory .direct),
  .unary .shiftLeft (.memory .absolute), .push .psw, .testBits true, .softwareBreak]

/-- Opcodes `10` to `1F`. -/
def row1 : Vector Instruction 16 := #v[
  .branch .negative false, .callVector 1, .writeBit 0 false, .branchBit 0 false,
  .binary .or (.memory .directX), .binary .or (.memory .absoluteX), .binary .or (.memory .absoluteY),
  .binary .or (.memory .indirectIndexed), .binaryMemory .or .directImmediate, .binaryMemory .or .indirectXY,
  .stepWord false, .unary .shiftLeft (.memory .directX), .unary .shiftLeft (.register .a),
  .unary .decrement (.register .x), .compare .x (.memory .absolute), .jumpIndexed]

/-- Opcodes `20` to `2F`. -/
def row2 : Vector Instruction 16 := #v[
  .setFlag .directPage false, .callVector 2, .writeBit 1 true, .branchBit 1 true,
  .binary .and (.memory .direct), .binary .and (.memory .absolute), .binary .and (.memory .indirectX),
  .binary .and (.memory .indexedIndirect), .binary .and .immediate, .binaryMemory .and .directDirect,
  .carryBit .orNot, .unary .rotateLeft (.memory .direct), .unary .rotateLeft (.memory .absolute), .push .a,
  .branchUnequal .direct, .branchAlways]

/-- Opcodes `30` to `3F`. -/
def row3 : Vector Instruction 16 := #v[
  .branch .negative true, .callVector 3, .writeBit 1 false, .branchBit 1 false,
  .binary .and (.memory .directX), .binary .and (.memory .absoluteX), .binary .and (.memory .absoluteY),
  .binary .and (.memory .indirectIndexed), .binaryMemory .and .directImmediate, .binaryMemory .and .indirectXY,
  .stepWord true, .unary .rotateLeft (.memory .directX), .unary .rotateLeft (.register .a),
  .unary .increment (.register .x), .compare .x (.memory .direct), .call]

/-- Opcodes `40` to `4F`. -/
def row4 : Vector Instruction 16 := #v[
  .setFlag .directPage true, .callVector 4, .writeBit 2 true, .branchBit 2 true,
  .binary .eor (.memory .direct), .binary .eor (.memory .absolute), .binary .eor (.memory .indirectX),
  .binary .eor (.memory .indexedIndirect), .binary .eor .immediate, .binaryMemory .eor .directDirect,
  .carryBit .and, .unary .shiftRight (.memory .direct), .unary .shiftRight (.memory .absolute), .push .x,
  .testBits false, .callPage]

/-- Opcodes `50` to `5F`. -/
def row5 : Vector Instruction 16 := #v[
  .branch .overflow false, .callVector 5, .writeBit 2 false, .branchBit 2 false,
  .binary .eor (.memory .directX), .binary .eor (.memory .absoluteX), .binary .eor (.memory .absoluteY),
  .binary .eor (.memory .indirectIndexed), .binaryMemory .eor .directImmediate, .binaryMemory .eor .indirectXY,
  .compareWord, .unary .shiftRight (.memory .directX), .unary .shiftRight (.register .a), .transfer .x .a,
  .compare .y (.memory .absolute), .jump]

/-- Opcodes `60` to `6F`. -/
def row6 : Vector Instruction 16 := #v[
  .setFlag .carry false, .callVector 6, .writeBit 3 true, .branchBit 3 true, .binary .cmp (.memory .direct),
  .binary .cmp (.memory .absolute), .binary .cmp (.memory .indirectX), .binary .cmp (.memory .indexedIndirect),
  .binary .cmp .immediate, .binaryMemory .cmp .directDirect, .carryBit .andNot,
  .unary .rotateRight (.memory .direct), .unary .rotateRight (.memory .absolute), .push .y, .decrementBranch,
  .ret]

/-- Opcodes `70` to `7F`. -/
def row7 : Vector Instruction 16 := #v[
  .branch .overflow true, .callVector 7, .writeBit 3 false, .branchBit 3 false,
  .binary .cmp (.memory .directX), .binary .cmp (.memory .absoluteX), .binary .cmp (.memory .absoluteY),
  .binary .cmp (.memory .indirectIndexed), .binaryMemory .cmp .directImmediate, .binaryMemory .cmp .indirectXY,
  .addWord, .unary .rotateRight (.memory .directX), .unary .rotateRight (.register .a), .transfer .a .x,
  .compare .y (.memory .direct), .returnInterrupt]

/-- Opcodes `80` to `8F`. -/
def row8 : Vector Instruction 16 := #v[
  .setFlag .carry true, .callVector 8, .writeBit 4 true, .branchBit 4 true, .binary .adc (.memory .direct),
  .binary .adc (.memory .absolute), .binary .adc (.memory .indirectX), .binary .adc (.memory .indexedIndirect),
  .binary .adc .immediate, .binaryMemory .adc .directDirect, .carryBit .eor,
  .unary .decrement (.memory .direct), .unary .decrement (.memory .absolute), .load .y .immediate, .pop .psw,
  .storeImmediate]

/-- Opcodes `90` to `9F`. -/
def row9 : Vector Instruction 16 := #v[
  .branch .carry false, .callVector 9, .writeBit 4 false, .branchBit 4 false, .binary .adc (.memory .directX),
  .binary .adc (.memory .absoluteX), .binary .adc (.memory .absoluteY),
  .binary .adc (.memory .indirectIndexed), .binaryMemory .adc .directImmediate, .binaryMemory .adc .indirectXY,
  .subtractWord, .unary .decrement (.memory .directX), .unary .decrement (.register .a), .transfer .x .sp,
  .divide, .exchangeNibbles]

/-- Opcodes `A0` to `AF`. -/
def rowA : Vector Instruction 16 := #v[
  .setFlag .interrupt true, .callVector 10, .writeBit 5 true, .branchBit 5 true,
  .binary .sbc (.memory .direct), .binary .sbc (.memory .absolute), .binary .sbc (.memory .indirectX),
  .binary .sbc (.memory .indexedIndirect), .binary .sbc .immediate, .binaryMemory .sbc .directDirect,
  .carryBit .load, .unary .increment (.memory .direct), .unary .increment (.memory .absolute),
  .compare .y .immediate, .pop .a, .storeIncrement]

/-- Opcodes `B0` to `BF`. -/
def rowB : Vector Instruction 16 := #v[
  .branch .carry true, .callVector 11, .writeBit 5 false, .branchBit 5 false, .binary .sbc (.memory .directX),
  .binary .sbc (.memory .absoluteX), .binary .sbc (.memory .absoluteY),
  .binary .sbc (.memory .indirectIndexed), .binaryMemory .sbc .directImmediate, .binaryMemory .sbc .indirectXY,
  .loadWord, .unary .increment (.memory .directX), .unary .increment (.register .a), .transfer .sp .x,
  .decimalSubtract, .loadIncrement]

/-- Opcodes `C0` to `CF`. -/
def rowC : Vector Instruction 16 := #v[
  .setFlag .interrupt false, .callVector 12, .writeBit 6 true, .branchBit 6 true, .store .direct .a,
  .store .absolute .a, .store .indirectX .a, .store .indexedIndirect .a, .compare .x .immediate,
  .store .absolute .x, .storeCarry, .store .direct .y, .store .absolute .y, .load .x .immediate, .pop .x,
  .multiply]

/-- Opcodes `D0` to `DF`. -/
def rowD : Vector Instruction 16 := #v[
  .branch .zero false, .callVector 13, .writeBit 6 false, .branchBit 6 false, .store .directX .a,
  .store .absoluteX .a, .store .absoluteY .a, .store .indirectIndexed .a, .store .direct .x,
  .store .directY .x, .storeWord, .store .directX .y, .unary .decrement (.register .y), .transfer .a .y,
  .branchUnequal .directX, .decimalAdd]

/-- Opcodes `E0` to `EF`. -/
def rowE : Vector Instruction 16 := #v[
  .clearOverflow, .callVector 14, .writeBit 7 true, .branchBit 7 true, .load .a (.memory .direct),
  .load .a (.memory .absolute), .load .a (.memory .indirectX), .load .a (.memory .indexedIndirect),
  .load .a .immediate, .load .x (.memory .absolute), .invertBit, .load .y (.memory .direct),
  .load .y (.memory .absolute), .invertCarry, .pop .y, .sleep]

/-- Opcodes `F0` to `FF`. -/
def rowF : Vector Instruction 16 := #v[
  .branch .zero true, .callVector 15, .writeBit 7 false, .branchBit 7 false, .load .a (.memory .directX),
  .load .a (.memory .absoluteX), .load .a (.memory .absoluteY), .load .a (.memory .indirectIndexed),
  .load .x (.memory .direct), .load .x (.memory .directY), .moveDirect, .load .y (.memory .directX),
  .unary .increment (.register .y), .transfer .y .a, .decrementYBranch, .stop]

/-- The instructions of all opcodes. -/
def rows : Vector (Vector Instruction 16) 16 :=
  #v[row0, row1, row2, row3, row4, row5, row6, row7, row8, row9, rowA, rowB, rowC, rowD, rowE, rowF]

/-- The instruction that an opcode stands for. -/
def decode (opcode : UInt8) : Instruction :=
  have := opcode.toNat_lt
  rows[opcode.toNat / 16][opcode.toNat % 16]

/-! ## Cycles -/

/-- The cycles of all opcodes. -/
def cycleRows : Vector (Vector Nat 16) 16 := #v[
  #v[2, 8, 4, 5, 3, 4, 3, 6, 2, 6, 5, 4, 5, 4, 6, 8],
  #v[2, 8, 4, 5, 4, 5, 5, 6, 5, 5, 6, 5, 2, 2, 4, 6],
  #v[2, 8, 4, 5, 3, 4, 3, 6, 2, 6, 5, 4, 5, 4, 5, 4],
  #v[2, 8, 4, 5, 4, 5, 5, 6, 5, 5, 6, 5, 2, 2, 3, 8],
  #v[2, 8, 4, 5, 3, 4, 3, 6, 2, 6, 4, 4, 5, 4, 6, 6],
  #v[2, 8, 4, 5, 4, 5, 5, 6, 5, 5, 4, 5, 2, 2, 4, 3],
  #v[2, 8, 4, 5, 3, 4, 3, 6, 2, 6, 4, 4, 5, 4, 5, 5],
  #v[2, 8, 4, 5, 4, 5, 5, 6, 5, 5, 5, 5, 2, 2, 3, 6],
  #v[2, 8, 4, 5, 3, 4, 3, 6, 2, 6, 5, 4, 5, 2, 4, 5],
  #v[2, 8, 4, 5, 4, 5, 5, 6, 5, 5, 5, 5, 2, 2, 12, 5],
  #v[3, 8, 4, 5, 3, 4, 3, 6, 2, 6, 4, 4, 5, 2, 4, 4],
  #v[2, 8, 4, 5, 4, 5, 5, 6, 5, 5, 5, 5, 2, 2, 3, 4],
  #v[3, 8, 4, 5, 4, 5, 4, 7, 2, 5, 6, 4, 5, 2, 4, 9],
  #v[2, 8, 4, 5, 5, 6, 6, 7, 4, 5, 5, 5, 2, 2, 6, 3],
  #v[2, 8, 4, 5, 3, 4, 3, 6, 2, 4, 5, 3, 4, 3, 4, 3],
  #v[2, 8, 4, 5, 4, 5, 5, 6, 3, 4, 5, 4, 2, 2, 4, 3]]

/-- The cycles that an instruction takes. -/
def cycles (opcode : UInt8) : Nat :=
  have := opcode.toNat_lt
  cycleRows[opcode.toNat / 16][opcode.toNat % 16]

/-- Additional cycles of a conditional branch that is taken. -/
def branchCycles : Nat := 2

/-- Every instruction takes between 2 and 12 cycles. -/
theorem cycles_mem (opcode : UInt8) : 2 ≤ cycles opcode ∧ cycles opcode ≤ 12 := by
  have h : ∀ i j : Fin 16, 2 ≤ cycleRows[i][j] ∧ cycleRows[i][j] ≤ 12 := by decide +kernel
  have hlt := opcode.toNat_lt
  exact h ⟨opcode.toNat / 16, by omega⟩ ⟨opcode.toNat % 16, by omega⟩

end SnesSound.Opcode
