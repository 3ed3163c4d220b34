/-! Numbers in hexadecimal, with lower-case digits. -/

namespace AgentCompiler

def hexText (n : Nat) : String := "0x" ++ String.ofList (Nat.toDigits 16 n)

end AgentCompiler
