import AgentCompiler.Bytes

/-! Strings in memory: the bytes of their UTF-8 form, ended by a zero byte. -/

namespace AgentCompiler

/-- The string has a zero byte among its own bytes, so its end could not be found. -/
def hasNul (s : String) : Bool := s.toList.contains '\x00'

def terminated (s : String) : Bytes := s.toUTF8.data.toList ++ [0]

end AgentCompiler
