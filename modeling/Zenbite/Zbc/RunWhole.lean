import Zenbite.Zbc.Control
import Zenbite.Zbc.NodeTree

/-! zbc_run behind the tokenizer: parsing, and then main in the tables. -/

namespace Zenbite.Zbc

end Zenbite.Zbc
