import RecollFilters.Python
import RecollFilters.Session
import RecollFilters.Posix
import RecollFilters.Markup
import RecollFilters.Url
import RecollFilters.Info
import RecollFilters.Ics
import RecollFilters.Epub
import RecollFilters.War
import RecollFilters.Tar
import RecollFilters.Archive
import RecollFilters.Chm.File
import RecollFilters.Chm.Charset
import RecollFilters.Chm.Walker
import RecollFilters.Chm.Filter
import RecollFilters.Runs
import RecollFilters.Dia
import RecollFilters.Opxml
import RecollFilters.Kar
