import Mathlib.Data.Nat.Notation
import Tdxrs.Net.Packet

set_option relaxedAutoImplicit false
set_option autoImplicit false

/-!
# Constants of the protocol

The fixed byte sequences and limits of `src/protocol/constants.rs` that the clients use.
-/

namespace Tdxrs

/-- The first setup command of the handshake. -/
def setupCmd1 : Bytes :=
  [0x0c, 0x02, 0x18, 0x93, 0x00, 0x01, 0x03, 0x00, 0x03, 0x00, 0x0d, 0x00, 0x01]

/-- The second setup command of the handshake. -/
def setupCmd2 : Bytes :=
  [0x0c, 0x02, 0x18, 0x94, 0x00, 0x01, 0x03, 0x00, 0x03, 0x00, 0x0d, 0x00, 0x02]

/-- The third setup command of the handshake. -/
def setupCmd3 : Bytes :=
  [0x0c, 0x03, 0x18, 0x99, 0x00, 0x01, 0x20, 0x00, 0x20, 0x00, 0xdb, 0x0f, 0xd5, 0xd0, 0xc9, 0xcc,
    0xd6, 0xa4, 0xa8, 0xaf, 0x00, 0x00, 0x00, 0x8f, 0xc2, 0x25, 0x40, 0x13, 0x00, 0x00, 0xd5, 0x00,
    0xc9, 0xcc, 0xbd, 0xf0, 0xd7, 0xea, 0x00, 0x00, 0x00, 0x02]

/-- The setup commands, in the order of the handshake. -/
def setupCmds : List Bytes := [setupCmd1, setupCmd2, setupCmd3]

/-- The request of a heartbeat probe: the security count of market 0. -/
def heartbeatPacket : Bytes :=
  [0x0c, 0x0c, 0x18, 0x6c, 0x00, 0x01, 0x08, 0x00, 0x08, 0x00, 0x4e, 0x04] ++
    LittleEndian.toLE 2 0 ++ [0x75, 0xc7, 0x33, 0x01]

/-- The market of Shenzhen. -/
def marketSz : UInt8 := 0

/-- The market of Shanghai. -/
def marketSh : UInt8 := 1

/-- The command of a K-line request. -/
def cmdSecurityBars : ℕ := 0x052D

/-- The command of a request for quotes. -/
def cmdSecurityQuotes : ℕ := 0x5053E

/-- The most securities that one request for quotes can ask for. -/
def maxQuotesCount : ℕ := 60

/-- The most bars that one K-line request can ask for. -/
def maxKlineCount : ℕ := 800

/-- How often a failed request is tried again: `RETRY_INTERVALS` has this many pauses. -/
def retryCount : ℕ := 4

end Tdxrs
