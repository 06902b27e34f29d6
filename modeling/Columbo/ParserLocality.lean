import Columbo.CursorDiscipline
import Columbo.Gem5Parser
import Columbo.NicBmParser
import Columbo.NS3Parser
import Columbo.ScanPrograms

/-!
# What the parsers look at

Every parser is put together from the operations of a line handler. When a newline ends the line
in memory, no number goes on behind it, so that a parser finds the same event in the line
whatever memory holds behind the newline.
-/
namespace Columbo

open LineHandler

/-- `ParseEvent` gives up on an empty line. -/
def nonEmpty : LineScan Unit := fun h => if h.isEmpty then (none, h) else (some (), h)

/-- The operations of a line handler that the parsers use. -/
inductive LineBasic : (α : Type) → LineScan α → Prop
  | exec (op : LineOp) : LineBasic op.Target op.exec
  | nonEmpty : LineBasic Unit nonEmpty

/-- A scan over the operations of a line handler. -/
abbrev LineBuilt {α : Type} (p : LineScan α) : Prop := Scan.Built LineBasic p

section Locality

variable {line mem₁ mem₂ : Bytes} {h₁ h₂ : LineHandler} {α : Type} {p : LineScan α}

/-- Two handlers at the same position of a line that a newline ends in memory. -/
structure Beside (line mem₁ mem₂ : Bytes) (h₁ h₂ : LineHandler) : Prop where
  left : OnLine line (kLineEnd :: mem₁) h₁
  right : OnLine line (kLineEnd :: mem₂) h₂
  pos_eq : h₁.curReadingPos = h₂.curReadingPos

theorem beside_ofLine (line mem₁ mem₂ : Bytes) :
    Beside line mem₁ mem₂ (ofLine line (kLineEnd :: mem₁)) (ofLine line (kLineEnd :: mem₂)) :=
  ⟨onLine_ofLine _ _, onLine_ofLine _ _, rfl⟩

theorem OnLine.getRawLine_eq {mem : Bytes} {h : LineHandler} (hline : OnLine line mem h) :
    h.getRawLine = line := by
  rw [getRawLine, hline.buf_eq, hline.size_eq, List.take_left]

theorem OnLine.behind_eq {mem : Bytes} {h : LineHandler} (hline : OnLine line mem h) :
    h.behind = mem := by
  rw [behind, hline.buf_eq, hline.size_eq, List.drop_left]

theorem Beside.sameLine (h : Beside line mem₁ mem₂ h₁ h₂) : SameLine h₁ h₂ :=
  ⟨h.left.getRawLine_eq.trans h.right.getRawLine_eq.symm,
    h.left.size_eq.trans h.right.size_eq.symm, h.pos_eq⟩

/-- A newline is not a digit of any number. -/
theorem LineOp.number_kLineEnd {op : LineOp} {pred : UInt8 → Bool} {accepts : Bytes → Bool}
    (h : op.number = some (pred, accepts)) : pred kLineEnd = false := by
  have huint : ∀ base : ℕ, (LineOp.parseUintTrim base).number = some (pred, accepts) →
      pred kLineEnd = false := by
    intro base hnumber
    obtain ⟨hbase, hclass⟩ := Option.ite_none_right_eq_some.mp hnumber
    obtain ⟨rfl, -⟩ := Prod.mk.inj (Option.some.inj hclass)
    rcases hbase with rfl | rfl
    · rfl
    · rfl
  have hint : LineOp.parseInt.number = some (pred, accepts) → pred kLineEnd = false := by
    intro hnumber
    obtain ⟨rfl, -⟩ := Prod.mk.inj (Option.some.inj hnumber)
    rfl
  cases op with
  | parseUintTrim base => exact huint base h
  | parseBoolFromUint base => exact huint base h
  | parseInt => exact hint h
  | parseBoolFromInt => exact hint h
  | _ => cases h

theorem Beside.not_continues (h : Beside line mem₁ mem₂ h₁ h₂) (op : LineOp) :
    ¬ op.Continues h₁ h₂ := by
  rintro ⟨pred, accepts, hnumber, hcontinues⟩
  have hend := LineOp.number_kLineEnd hnumber
  refine hcontinues.differ ?_
  rw [h.left.behind_eq, h.right.behind_eq]
  simp [hend]

theorem respects_lineBasic (hp : LineBasic α p) : Respects (Beside line mem₁ mem₂) p := by
  intro h₁ h₂ h
  cases hp with
  | exec op =>
    obtain ⟨hresult, hline⟩ := LineOp.exec_alike h.sameLine (h.not_continues op)
    exact ⟨hresult, (op.steady.onLine h.left).1, (op.steady.onLine h.right).1, hline.pos_eq⟩
  | nonEmpty =>
    rw [nonEmpty, nonEmpty, h.sameLine.isEmpty_eq]
    split_ifs
    · exact ⟨rfl, h⟩
    · exact ⟨rfl, h⟩

/-- The event of a line, and where the parser stops, depend on the line alone. -/
theorem Scan.Built.alike (hp : LineBuilt p) (line mem₁ mem₂ : Bytes) :
    Alike (Beside line mem₁ mem₂) (p (ofLine line (kLineEnd :: mem₁)))
      (p (ofLine line (kLineEnd :: mem₂))) :=
  hp.respects respects_lineBasic _ _ (beside_ofLine line mem₁ mem₂)

end Locality

section Operations

theorem built_op (op : LineOp) : LineBuilt op.exec := .basic (.exec op)

theorem built_trimL : LineBuilt trimL := built_op .trimL

theorem built_skipTill (predicate : UInt8 → Bool) : LineBuilt (skipTill predicate) :=
  built_op (.skipTill predicate)

theorem built_extractInto (predicate : UInt8 → Bool) :
    LineBuilt (extractAndSubstrUntilInto predicate) :=
  built_op (.extractAndSubstrUntilInto predicate)

theorem built_till (toConsume : Bytes) : LineBuilt (consumeAndTrimTillString toConsume) :=
  built_op (.consumeAndTrimTillString toConsume)

theorem built_string (toConsume : Bytes) : LineBuilt (consumeAndTrimString toConsume) :=
  built_op (.consumeAndTrimString toConsume)

theorem built_char (toConsume : UInt8) : LineBuilt (consumeAndTrimChar toConsume) :=
  built_op (.consumeAndTrimChar toConsume)

theorem built_parseUintTrim (base : ℕ) : LineBuilt (parseUintTrim base) :=
  built_op (.parseUintTrim base)

theorem built_parseInt : LineBuilt parseInt := built_op .parseInt

theorem built_parseBoolFromUint (base : ℕ) : LineBuilt (parseBoolFromUint base) :=
  built_op (.parseBoolFromUint base)

theorem built_parseBoolFromInt : LineBuilt parseBoolFromInt := built_op .parseBoolFromInt

theorem built_parseBoolFromStringRepr : LineBuilt parseBoolFromStringRepr :=
  built_op .parseBoolFromStringRepr

theorem built_parseTimestamp : LineBuilt LogParser.parseTimestamp :=
  built_trimL.bind fun _ => built_parseUintTrim 10

theorem built_parseAddress : LineBuilt LogParser.parseAddress := built_parseUintTrim 16

theorem built_unlessEmpty {α : Type} {p : LineScan α} (hp : LineBuilt p) :
    LineBuilt fun h => if h.isEmpty then (none, h) else p h := by
  have hguard : (fun h => if h.isEmpty then (none, h) else p h) = nonEmpty >>= fun _ => p := by
    funext h
    by_cases hempty : h.isEmpty = true
    · have hnone : nonEmpty h = (none, h) := by rw [nonEmpty, if_pos hempty]
      rw [if_pos hempty, Scan.bind_of_none hnone]
    · have hsome : nonEmpty h = (some (), h) := by rw [nonEmpty, if_neg hempty]
      rw [if_neg hempty, Scan.bind_of_some hsome]
  rw [hguard]
  exact .bind (.basic .nonEmpty) fun _ => hp

end Operations

namespace NicBmParser

theorem built_parseOffLenValComma : LineBuilt parseOffLenValComma :=
  (built_till _).bind fun _ => built_parseAddress.bind fun _ =>
    (built_till _).bind fun _ => (built_parseUintTrim 10).bind fun _ =>
      (built_till _).bind fun _ => built_parseAddress.bind fun _ => .pure _

theorem built_parseOpAddrLen : LineBuilt parseOpAddrLen :=
  (built_till _).bind fun _ => built_parseAddress.bind fun _ =>
    (built_till _).bind fun _ => built_parseAddress.bind fun _ =>
      (built_till _).bind fun _ => (built_parseUintTrim 10).bind fun _ => .pure _

theorem built_parseOpAddrLenPending (withPending : Bool) :
    LineBuilt (parseOpAddrLenPending withPending) :=
  built_parseOpAddrLen.bind fun _ =>
    .ite ((built_till _).bind fun _ => (built_parseUintTrim 10).bind fun _ => .pure _) (.pure _)

theorem built_parseRead : LineBuilt parseRead := built_parseOffLenValComma.bind fun _ => .pure _

theorem built_parseWrite : LineBuilt parseWrite :=
  built_parseOffLenValComma.bind fun _ => (built_till _).bind fun _ =>
    (built_parseBoolFromUint 10).bind fun _ => .pure _

theorem built_parseDma (mk : UInt64 → UInt64 → UInt64 → EventKind) (withPending : Bool) :
    LineBuilt (parseDma mk withPending) :=
  (built_parseOpAddrLenPending withPending).bind fun _ => .pure _

theorem built_parseCompleted : LineBuilt parseCompleted :=
  .branch (built_till _) (built_parseDma _ _) <|
    .branch (built_till _) (built_parseDma _ _) .fail

theorem built_parseVec (isX : Bool) : LineBuilt (parseVec isX) :=
  (built_parseUintTrim 10).bind fun _ => .pure _

theorem built_parseMsi : LineBuilt parseMsi :=
  .branch (built_till _) (built_parseVec _) <| .branch (built_till _) (built_parseVec _) .fail

theorem built_parseEth : LineBuilt parseEth :=
  .branch (built_till _) ((built_parseUintTrim 10).bind fun _ => .pure _) <|
    .branch (built_till _)
      (built_parseInt.bind fun _ => (built_till _).bind fun _ =>
        (built_parseUintTrim 10).bind fun _ => .pure _)
      .fail

theorem built_parseSetIX : LineBuilt parseSetIX := built_parseAddress.bind fun _ => .pure _

theorem built_parseKind : LineBuilt parseKind :=
  .branch (built_till _) (.pure _) <|
    .branch (built_till _) built_parseRead <|
    .branch (built_till _) built_parseWrite <|
    .branch (built_till _) (built_parseDma _ _) <|
    .branch (built_till _) (built_parseDma _ _) <|
    .branch (built_till _) (built_parseDma _ _) <|
    .branch (built_till _) built_parseCompleted <|
    .branch (built_till _) built_parseMsi <|
    .branch (built_till _) built_parseEth <|
    .branch (built_till _) built_parseSetIX <|
    .branch (built_till _) .fail .fail

theorem built_parseEvent (parser : LogParser) : LineBuilt (parseEvent parser) :=
  built_unlessEmpty <| built_trimL.bind fun _ => (built_till _).bind fun _ =>
    (built_string _).bind fun _ => built_parseTimestamp.bind fun _ => (built_till _).bind fun _ =>
      built_parseKind.bind fun _ => .pure _

end NicBmParser

namespace Gem5Parser

variable (parser : Gem5Parser)

theorem built_filtered (comp : String) : LineBuilt (parser.filtered comp) := .ite (.pure _) .fail

theorem built_parseGlobalEvent : LineBuilt parseGlobalEvent :=
  (built_till _).bind fun _ => built_trimL.bind fun _ =>
    .branch (built_string _) (.pure _) <| .branch (built_string _) (.pure _) .fail

theorem built_parseInstruction (addr : UInt64) : LineBuilt (parser.parseInstruction addr) := by
  refine .branch (built_char _) (.pure _) ?_
  cases TraceEnvironment.symtableFilter parser.symbolTables addr with
  | none => exact .fail
  | some symbol => exact .pure _

theorem built_parseSystemSwitchCpus : LineBuilt parser.parseSystemSwitchCpus :=
  (built_till _).bind fun _ => (built_parseUintTrim 16).bind fun addr => built_trimL.bind fun _ =>
    .branch (built_char _)
      (built_trimL.bind fun _ =>
        .branch (built_string _) .fail <| .branch (built_string _) .fail <|
          .branch (built_string _) .fail (parser.built_parseInstruction addr))
      (parser.built_parseInstruction addr)

theorem built_parsePciRW (isRead : Bool) : LineBuilt (parsePciRW isRead) :=
  (built_parseUintTrim 16).bind fun _ => (built_string _).bind fun _ =>
    (built_parseUintTrim 16).bind fun _ => .pure _

theorem built_parseSystemPcPciHost : LineBuilt parseSystemPcPciHost :=
  .branch (built_till _) (built_parsePciRW _) <|
    .branch (built_till _) (built_parsePciRW _) .fail

theorem built_parseSystemPcPciHostInterface : LineBuilt parseSystemPcPciHostInterface :=
  (built_skipTill _).bind fun _ => built_trimL.bind fun _ =>
    .branch (built_string _) (.pure _) <| .branch (built_string _) (.pure _) .fail

theorem built_parseConfData : LineBuilt parseConfData :=
  .orElse ((built_string _).bind fun _ => built_parseUintTrim 16)
    ((built_char _).bind fun _ => .pure _)

theorem built_parseConf (isReadConf : Bool) : LineBuilt (parseConf isReadConf) :=
  built_trimL.bind fun _ => (built_string _).bind fun _ => (built_parseUintTrim 10).bind fun _ =>
    (built_string _).bind fun _ => (built_parseUintTrim 10).bind fun _ =>
      (built_string _).bind fun _ => (built_parseUintTrim 16).bind fun _ =>
        (built_char _).bind fun _ => (built_parseUintTrim 10).bind fun _ =>
          (built_string _).bind fun _ => built_parseConfData.bind fun _ => .pure _

theorem built_parseCompletion (word : String) (mk : UInt64 → EventKind) :
    LineBuilt (parseCompletion word mk) :=
  (built_string _).bind fun _ => (built_string _).bind fun _ =>
    (built_parseUintTrim 10).bind fun _ => .pure _

theorem built_parseDma (word : String) (mk : UInt64 → UInt64 → UInt64 → EventKind) :
    LineBuilt (parseDma word mk) :=
  (built_string _).bind fun _ => (built_parseUintTrim 10).bind fun _ =>
    (built_string _).bind fun _ => (built_parseUintTrim 16).bind fun _ =>
      (built_string _).bind fun _ => (built_parseUintTrim 10).bind fun _ => .pure _

theorem built_parseMsiX : LineBuilt parseMsiX :=
  (built_till _).bind fun _ => (built_parseUintTrim 10).bind fun _ => .pure _

theorem built_parseReceived : LineBuilt parseReceived :=
  .orElse (built_parseCompletion _ _) <| .orElse (built_parseCompletion _ _) <|
    .branch (built_string _) (.orElse (built_parseDma _ _) (built_parseDma _ _)) built_parseMsiX

theorem built_parseMmio (isRead : Bool) : LineBuilt (parseMmio isRead) :=
  (built_parseUintTrim 16).bind fun _ => (built_string _).bind fun _ =>
    (built_parseUintTrim 10).bind fun _ => (built_string _).bind fun _ =>
      (built_parseUintTrim 10).bind fun _ => (built_string _).bind fun _ =>
        built_parseInt.bind fun _ => (built_string _).bind fun _ =>
          (built_parseUintTrim 16).bind fun _ =>
            .ite (.pure _)
              ((built_string _).bind fun _ => built_parseBoolFromInt.bind fun _ => .pure _)

theorem built_parseSending : LineBuilt parseSending :=
  .branch (built_string _) (built_parseMmio _) <| .branch (built_string _) (built_parseMmio _) <|
    .branch (built_string _) (.pure _) .fail

theorem built_parseCompletedDma : LineBuilt parseCompletedDma :=
  (built_string _).bind fun _ => (built_parseUintTrim 10).bind fun _ => .pure _

theorem built_parseSimbricksPci : LineBuilt parseSimbricksPci :=
  built_trimL.bind fun _ => .branch (built_string _) built_parseReceived <|
    .branch (built_string _) built_parseSending built_parseCompletedDma

theorem built_parseSystemPcSimbricks : LineBuilt parseSystemPcSimbricks :=
  (built_skipTill _).bind fun _ => built_trimL.bind fun _ =>
    .branch (built_string _) (built_parseConf _) <| .branch (built_string _) (built_parseConf _) <|
      .branch (built_string _) built_parseSimbricksPci .fail

theorem built_parseSystemPc : LineBuilt parser.parseSystemPc :=
  .branch (built_string _)
    (.branch ((built_string _).bind fun _ => parser.built_filtered _)
      built_parseSystemPcPciHostInterface
      ((parser.built_filtered _).bind fun _ => built_parseSystemPcPciHost)) <|
    .branch ((built_string _).bind fun _ => parser.built_filtered _)
      built_parseSystemPcSimbricks .fail

theorem built_parseKind : LineBuilt parser.parseKind :=
  .branch ((built_string _).bind fun _ => parser.built_filtered _) built_parseGlobalEvent <|
    .branch ((built_string _).bind fun _ => parser.built_filtered _)
      parser.built_parseSystemSwitchCpus <|
    .branch (built_string _) parser.built_parseSystemPc .fail

theorem built_parseEvent : LineBuilt parser.parseEvent :=
  built_unlessEmpty <| built_parseTimestamp.bind fun _ => (built_char _).bind fun _ =>
    built_trimL.bind fun _ => parser.built_parseKind.bind fun _ => .pure _

end Gem5Parser

section Headers

theorem built_parseMacBytes (left : ℕ) : LineBuilt (parseMacBytes left) := by
  induction left with
  | zero => exact .pure _
  | succ left ih =>
    refine (built_parseUintTrim 16).bind fun _ => ?_
    split
    · exact (built_char _).bind fun _ => ih.bind fun _ => .pure _
    · exact ih.bind fun _ => .pure _

theorem built_parseMacAddress : LineBuilt parseMacAddress :=
  built_trimL.bind fun _ => built_parseMacBytes kMacSize

theorem built_parseOctet : LineBuilt parseOctet :=
  (built_parseUintTrim 10).bind fun _ => .ite .fail (.pure _)

theorem built_parseIpAddress : LineBuilt parseIpAddress :=
  built_parseOctet.bind fun _ => (built_char _).bind fun _ =>
    built_parseOctet.bind fun _ => (built_char _).bind fun _ =>
      built_parseOctet.bind fun _ => (built_char _).bind fun _ =>
        built_parseOctet.bind fun _ => .pure _

theorem built_parseEthernetHeader : LineBuilt parseEthernetHeader :=
  (built_till _).bind fun _ => (built_till _).bind fun _ => (built_parseUintTrim 16).bind fun _ =>
    (built_till _).bind fun _ => built_parseMacAddress.bind fun _ =>
      (built_till _).bind fun _ => built_parseMacAddress.bind fun _ => .pure _

theorem built_parseArpHeader : LineBuilt parseArpHeader :=
  (built_till _).bind fun _ =>
    Scan.Built.bind
      (.orElse ((built_till _).bind fun _ => .pure _) ((built_till _).bind fun _ => .pure _))
      fun _ => (built_till _).bind fun _ => built_parseIpAddress.bind fun _ =>
        (built_till _).bind fun _ => built_parseIpAddress.bind fun _ => .pure _

theorem built_parseIpHeader : LineBuilt parseIpHeader :=
  (built_till _).bind fun _ => (built_till _).bind fun _ => (built_parseUintTrim 10).bind fun _ =>
    built_trimL.bind fun _ => built_parseIpAddress.bind fun _ => built_trimL.bind fun _ =>
      (built_char _).bind fun _ => built_trimL.bind fun _ =>
        built_parseIpAddress.bind fun _ => .pure _

theorem built_tryParseHeader {α : Type} {parse : LineScan α} (hparse : LineBuilt parse) :
    LineBuilt (tryParseHeader parse) := built_trimL.bind fun _ => hparse.optional

theorem built_tryParseEthernetHeader : LineBuilt tryParseEthernetHeader :=
  built_tryParseHeader built_parseEthernetHeader

theorem built_tryParseArpHeader : LineBuilt tryParseArpHeader :=
  built_tryParseHeader built_parseArpHeader

theorem built_tryParseIpHeader : LineBuilt tryParseIpHeader :=
  built_tryParseHeader built_parseIpHeader

end Headers

namespace NS3Parser

theorem built_parseBoundaryType : LineBuilt parseBoundaryType :=
  .branch (built_till _) (.pure _) <| .branch (built_till _) (.pure _) (.pure _)

theorem built_parsePayloadSize : LineBuilt parsePayloadSize :=
  .branch (built_till _) (built_parseUintTrim 10) (.pure _)

theorem built_networkEvent (type : EventType) (net : NetworkEvent) :
    LineBuilt (networkEvent type net) := by
  unfold networkEvent
  split
  · exact .pure _
  · exact .pure _
  · exact .pure _
  · exact .fail

theorem built_parseNetDevice (type : EventType) (node device : Int32)
    (deviceType : NetworkDeviceType) : LineBuilt (parseNetDevice type node device deviceType) :=
  built_trimL.bind fun _ => built_parseBoundaryType.bind fun _ => (built_till _).bind fun _ =>
    (built_parseUintTrim 10).bind fun _ => (built_till _).bind fun _ =>
      built_parseBoolFromStringRepr.bind fun _ => built_tryParseEthernetHeader.bind fun _ =>
        built_tryParseArpHeader.bind fun _ => built_tryParseIpHeader.bind fun _ =>
          built_parsePayloadSize.bind fun _ => built_networkEvent type _

theorem built_parseType : LineBuilt parseType :=
  .branch (built_char _) (.pure _) <| .branch (built_char _) (.pure _) <|
    .branch (built_char _) (.pure _) .fail

theorem built_parseDeviceType : LineBuilt parseDeviceType :=
  .branch (built_till _) (.pure _) <| .branch (built_till _) (.pure _) .fail

theorem built_parseEvent (parser : LogParser) : LineBuilt (parseEvent parser) :=
  built_unlessEmpty <| built_parseType.bind fun type => built_trimL.bind fun _ =>
    built_parseTimestamp.bind fun _ => (built_till _).bind fun _ => built_parseInt.bind fun node =>
      (built_till _).bind fun _ => built_parseInt.bind fun device =>
        built_parseDeviceType.bind fun deviceType =>
          (built_parseNetDevice type node device deviceType).bind fun _ => .pure _

end NS3Parser

section EventStream

theorem built_uintField (name : String) (base : ℕ) : LineBuilt (uintField name base) :=
  (built_string _).bind fun _ => built_parseUintTrim base

theorem built_intField (name : String) : LineBuilt (intField name) :=
  (built_string _).bind fun _ => built_parseInt

theorem built_boolField (name : String) : LineBuilt (boolField name) :=
  (built_string _).bind fun _ => built_parseBoolFromStringRepr

theorem built_textField (name : String) (predicate : UInt8 → Bool) :
    LineBuilt (textField name predicate) :=
  (built_string _).bind fun _ => built_extractInto predicate

theorem built_deviceTypeOf (deviceName : Bytes) : LineBuilt (deviceTypeOf deviceName) :=
  .ite (.pure _) (.ite (.pure _) .fail)

theorem built_boundaryTypeOf (boundaryTypeStr : Bytes) :
    LineBuilt (boundaryTypeOf boundaryTypeStr) :=
  .ite (.pure _) (.ite (.pure _) (.ite (.pure _) .fail))

theorem built_parseHeaders : LineBuilt parseHeaders :=
  built_trimL.bind fun _ => built_tryParseEthernetHeader.bind fun _ =>
    built_trimL.bind fun _ => built_tryParseArpHeader.bind fun _ =>
      built_trimL.bind fun _ => built_tryParseIpHeader.bind fun _ => .pure _

theorem built_parseNetworkEvent : LineBuilt parseNetworkEvent :=
  (built_intField _).bind fun _ => (built_intField _).bind fun _ =>
    (built_textField _ _).bind fun _ => (built_till _).bind fun _ =>
      (built_parseUintTrim 10).bind fun _ => (built_till _).bind fun _ =>
        built_parseBoolFromStringRepr.bind fun _ => (built_uintField _ _).bind fun _ =>
          (built_textField _ _).bind fun _ => (built_deviceTypeOf _).bind fun _ =>
            (built_boundaryTypeOf _).bind fun _ => built_parseHeaders.bind fun _ => .pure _

theorem built_parseIdentNameTs : LineBuilt parseIdentNameTs :=
  (built_uintField _ _).bind fun _ => (built_textField _ _).bind fun _ =>
    (built_uintField _ _).bind fun _ => .pure _

theorem built_parseHostCall : LineBuilt parseHostCall :=
  (built_uintField _ _).bind fun _ => (built_textField _ _).bind fun _ =>
    (built_textField _ _).bind fun _ => .pure _

/-- The fields of one number. -/
theorem built_number (name : String) (base : ℕ) (mk : UInt64 → EventKind) :
    LineBuilt (uintField name base >>= fun value => pure (mk value)) :=
  (built_uintField _ _).bind fun _ => .pure _

/-- The fields of three numbers. -/
theorem built_numbers {α : Type} (name₁ name₂ name₃ : String) (base₁ base₂ base₃ : ℕ)
    (mk : UInt64 → UInt64 → UInt64 → α) :
    LineBuilt (uintField name₁ base₁ >>= fun value₁ => uintField name₂ base₂ >>= fun value₂ =>
      uintField name₃ base₃ >>= fun value₃ => pure (mk value₁ value₂ value₃)) :=
  (built_uintField _ _).bind fun _ => (built_uintField _ _).bind fun _ =>
    (built_uintField _ _).bind fun _ => .pure _

theorem built_parseHostAddrSizeOp : LineBuilt parseHostAddrSizeOp := built_numbers ..

theorem built_parseHostDma (mk : UInt64 → UInt64 → UInt64 → EventKind) :
    LineBuilt (parseHostDma mk) := built_parseHostAddrSizeOp.bind fun _ => .pure _

theorem built_parseHostMmioR : LineBuilt parseHostMmioR :=
  built_parseHostAddrSizeOp.bind fun _ => (built_intField _).bind fun _ =>
    (built_uintField _ _).bind fun _ => .pure _

theorem built_parseHostMmioW : LineBuilt parseHostMmioW :=
  built_parseHostAddrSizeOp.bind fun _ => (built_intField _).bind fun _ =>
    (built_uintField _ _).bind fun _ => (built_boolField _).bind fun _ => .pure _

theorem built_parseHostConf (isRead : Bool) : LineBuilt (parseHostConf isRead) :=
  (built_uintField _ _).bind fun _ => (built_uintField _ _).bind fun _ =>
    (built_uintField _ _).bind fun _ => (built_uintField _ _).bind fun _ =>
      (built_uintField _ _).bind fun _ => .pure _

theorem built_parseHostPciRW (isRead : Bool) : LineBuilt (parseHostPciRW isRead) :=
  (built_uintField _ _).bind fun _ => (built_uintField _ _).bind fun _ => .pure _

theorem built_parseNicDma (mk : UInt64 → UInt64 → UInt64 → EventKind) :
    LineBuilt (parseNicDma mk) := built_numbers ..

theorem built_parseNicMmio : LineBuilt parseNicMmio := built_numbers ..

theorem built_parseNicMmioR : LineBuilt parseNicMmioR := built_parseNicMmio.bind fun _ => .pure _

theorem built_parseNicMmioW : LineBuilt parseNicMmioW :=
  built_parseNicMmio.bind fun _ => (built_boolField _).bind fun _ => .pure _

theorem built_parseNicRx : LineBuilt parseNicRx :=
  (built_uintField _ _).bind fun _ => (built_string _).bind fun _ =>
    (built_intField _).bind fun _ => .pure _

theorem built_parseKind (eventName : Bytes) : LineBuilt (parseKind eventName) :=
  .ite (.pure _) <| .ite (.pure _) <| .ite (built_number ..) <| .ite built_parseHostCall <|
    .ite (.pure _) <| .ite (built_number ..) <| .ite (built_number ..) <| .ite (built_number ..) <|
    .ite built_parseHostMmioR <| .ite built_parseHostMmioW <|
    .ite (built_parseHostDma _) <| .ite (built_parseHostDma _) <| .ite (built_number ..) <|
    .ite (built_parseHostConf _) <| .ite (built_parseHostConf _) <|
    .ite (.pure _) <| .ite (.pure _) <|
    .ite (built_parseHostPciRW _) <| .ite (built_parseHostPciRW _) <|
    .ite (built_number ..) <| .ite (built_number ..) <| .ite (built_number ..) <|
    .ite (built_parseNicDma _) <| .ite (built_parseNicDma _) <| .ite (built_parseNicDma _) <|
    .ite (built_parseNicDma _) <| .ite (built_parseNicDma _) <|
    .ite built_parseNicMmioR <| .ite built_parseNicMmioW <|
    .ite (built_number ..) <| .ite built_parseNicRx <|
    .ite (built_parseNetworkEvent.bind fun _ => .pure _) <|
    .ite (built_parseNetworkEvent.bind fun _ => .pure _) <|
    .ite (built_parseNetworkEvent.bind fun _ => .pure _) .fail

theorem built_parseEvent : LineBuilt parseEvent :=
  built_trimL.bind fun _ => (built_extractInto _).bind fun eventName =>
    built_parseIdentNameTs.bind fun _ => (built_parseKind eventName).bind fun _ => .pure _

end EventStream

/-- The parsers of logs and of event streams. -/
inductive Parser
  | gem5 (parser : Gem5Parser)
  | nicBm (parser : LogParser)
  | ns3 (parser : LogParser)
  | eventStream

namespace Parser

def parseEvent : Parser → LineScan Event
  | gem5 parser => parser.parseEvent
  | nicBm parser => NicBmParser.parseEvent parser
  | ns3 parser => NS3Parser.parseEvent parser
  | eventStream => Columbo.parseEvent

theorem built (parser : Parser) : LineBuilt parser.parseEvent := by
  cases parser with
  | gem5 parser => exact parser.built_parseEvent
  | nicBm parser => exact NicBmParser.built_parseEvent parser
  | ns3 parser => exact NS3Parser.built_parseEvent parser
  | eventStream => exact built_parseEvent

/-- The event of a line that a newline ends in memory. -/
def eventOf (parser : Parser) (line : Bytes) : Option Event :=
  (parser.parseEvent (ofLine line [kLineEnd])).1

theorem parseEvent_eq_eventOf (parser : Parser) (line mem : Bytes) :
    (parser.parseEvent (ofLine line (kLineEnd :: mem))).1 = parser.eventOf line :=
  (parser.built.alike line mem []).1

/-- A parser reads a line that a newline ends in memory without looking behind the newline. -/
theorem parseEvent_local (parser : Parser) (line mem : Bytes) :
    (parser.parseEvent (ofLine line (kLineEnd :: mem))).1 = parser.eventOf line ∧
      (parser.parseEvent (ofLine line (kLineEnd :: mem))).2.curReadingPos =
        (parser.parseEvent (ofLine line [kLineEnd])).2.curReadingPos ∧
      (parser.parseEvent (ofLine line (kLineEnd :: mem))).2.curReadingPos ≤ line.length := by
  obtain ⟨hevent, hbeside⟩ := parser.built.alike line mem []
  refine ⟨hevent, hbeside.pos_eq, ?_⟩
  rw [← hbeside.left.size_eq]
  exact hbeside.left.pos_le

end Parser

end Columbo
